import BuildDelta.Proofs.Diff.Stale
import BuildDelta.Proofs.SourceSet.Exact
import BuildDelta.Proofs.Text.Order
/-!
# Differences in both directions

Whatever a difference says about a key, the difference the other way round says from the other side
(`Snapshot.toList_diff_swap`). With what was removed, the keys of one side are the keys of the other one
with what was added (`Snapshot.perm_keys_append`), which is how the two sides are counted against each
other. The keys of a difference are told apart by their status into three lists in the order of their
bytes, and the lists of two statuses make one list by merging (`Diff.addedOrChangedKeys_eq_merge`). They
are what comes of sorting the keys of the entries, in whatever order these are taken
(`Diff.sort_keys_filter`).
-/

namespace BuildDelta

/-- What a status is from the other side. -/
def Status.mirror : Status → Status
  | .added => .removed
  | .removed => .added
  | .changed => .changed

namespace Change

variable {τ : Type}

/-- A change from the other side. -/
def mirror : Change τ → Change τ
  | .added item => .removed item
  | .removed item => .added item
  | .changed current previous => .changed previous current

@[simp] theorem status_mirror (c : Change τ) : c.mirror.status = c.status.mirror := by
  cases c <;> rfl

@[simp] theorem current?_mirror (c : Change τ) : c.mirror.current? = c.previous? := by
  cases c <;> rfl

@[simp] theorem previous?_mirror (c : Change τ) : c.mirror.previous? = c.current? := by
  cases c <;> rfl

end Change

section Keys

variable {τ : Type} [Item τ]

theorem LawfulItem.unchanged_comm [LawfulItem τ] {a b : τ} (h : key a = key b) :
    Item.unchanged a b = Item.unchanged b a := by
  rw [Bool.eq_iff_iff, unchanged_iff a b h, unchanged_iff b a h.symm]
  exact eq_comm

namespace Diff

theorem pairwise_decide_le {ks : List String} (h : ks.Pairwise (· < ·)) :
    ks.Pairwise fun k k' => decide (k ≤ k') = true :=
  h.imp fun hlt => decide_eq_true (le_of_lt hlt)

/-- A list of different keys can be put in order in one way. -/
theorem eq_of_perm_sorted {ks sorted : List String} (hks : ks.Pairwise (· < ·))
    (hsorted : sorted.Pairwise fun k k' => decide (k ≤ k') = true) (h : ks.Perm sorted) :
    ks = sorted := by
  apply h.eq_of_pairwise ?_ (pairwise_decide_le hks) hsorted
  intro k k' _ _ hle hge
  exact le_antisymm (of_decide_eq_true hle) (of_decide_eq_true hge)

variable (d : Diff τ)

theorem length_keysWithStatus (status : Status) : (d.keysWithStatus status).length = d.count status :=
  List.length_map _

theorem ascending_keysWithStatus (status : Status) :
    (d.keysWithStatus status).Pairwise (· < ·) :=
  List.pairwise_map.2 (d.ascending.sublist List.filter_sublist)

theorem ascending_addedOrChangedKeys : d.addedOrChangedKeys.Pairwise (· < ·) :=
  List.pairwise_map.2 (d.ascending.sublist List.filter_sublist)

theorem nodup_keysWithStatus (status : Status) : (d.keysWithStatus status).Nodup :=
  d.pairwise_keysWithStatus status

theorem disjoint_keysWithStatus {status status' : Status} (h : status ≠ status') :
    (d.keysWithStatus status).Disjoint (d.keysWithStatus status') := by
  intro k hk hk'
  obtain ⟨c, hc, rfl⟩ := mem_keysWithStatus.1 hk
  obtain ⟨c', hc', rfl⟩ := mem_keysWithStatus.1 hk'
  rw [hc, Option.some_inj] at hc'
  exact h (congrArg Change.status hc')

theorem mem_keys_iff {k : String} : k ∈ d.keys ↔ ∃ status, k ∈ d.keysWithStatus status := by
  rw [← Table.contains_iff_mem_keys, Table.contains, Option.isSome_iff_exists]
  simp only [mem_keysWithStatus]
  constructor
  · rintro ⟨c, hc⟩
    exact ⟨c.status, c, hc, rfl⟩
  · rintro ⟨_, c, hc, _⟩
    exact ⟨c, hc⟩

/-- Each key is in the list of one status. -/
theorem perm_keys : (d.keysWithStatus .added ++ d.keysWithStatus .removed ++
    d.keysWithStatus .changed).Perm d.keys := by
  have hremoved : (d.keysWithStatus .added).Disjoint (d.keysWithStatus .removed) :=
    d.disjoint_keysWithStatus (by decide)
  have hchanged : (d.keysWithStatus .added).Disjoint (d.keysWithStatus .changed) :=
    d.disjoint_keysWithStatus (by decide)
  have hchanged' : (d.keysWithStatus .removed).Disjoint (d.keysWithStatus .changed) :=
    d.disjoint_keysWithStatus (by decide)
  have hnodup : (d.keysWithStatus .added ++ d.keysWithStatus .removed ++
      d.keysWithStatus .changed).Nodup :=
    ((d.nodup_keysWithStatus _).append (d.nodup_keysWithStatus _) hremoved).append
      (d.nodup_keysWithStatus _) (List.disjoint_append_left.2 ⟨hchanged, hchanged'⟩)
  have hkeys : d.keys.Nodup := Table.nodup_keys d
  apply (List.perm_ext_iff_of_nodup hnodup hkeys).2
  intro k
  rw [mem_keys_iff, List.mem_append, List.mem_append]
  constructor
  · rintro ((h | h) | h) <;> exact ⟨_, h⟩
  · rintro ⟨_ | _ | _, h⟩
    · exact .inl (.inl h)
    · exact .inl (.inr h)
    · exact .inr h

theorem perm_addedOrChangedKeys :
    d.addedOrChangedKeys.Perm (d.keysWithStatus .added ++ d.keysWithStatus .changed) := by
  have hdisjoint : (d.keysWithStatus .added).Disjoint (d.keysWithStatus .changed) :=
    d.disjoint_keysWithStatus (by decide)
  have hnodup := (d.nodup_keysWithStatus _).append (d.nodup_keysWithStatus _) hdisjoint
  have hkeys : d.addedOrChangedKeys.Nodup := d.ascending_addedOrChangedKeys.imp String.ne_of_lt
  apply (List.perm_ext_iff_of_nodup hkeys hnodup).2
  intro k
  rw [mem_addedOrChangedKeys, List.mem_append, mem_keysWithStatus, mem_keysWithStatus, ← exists_or]
  apply exists_congr
  intro c
  cases c <;> simp [Change.status]

theorem addedOrChangedKeys_eq_merge : d.addedOrChangedKeys =
    (d.keysWithStatus .added).merge (d.keysWithStatus .changed) fun k k' => decide (k ≤ k') := by
  have hmerge := List.pairwise_merge Text.decide_le_trans Text.decide_le_total _ _
    (pairwise_decide_le (d.ascending_keysWithStatus .added))
    (pairwise_decide_le (d.ascending_keysWithStatus .changed))
  apply eq_of_perm_sorted d.ascending_addedOrChangedKeys hmerge
  exact d.perm_addedOrChangedKeys.trans (List.merge_perm_append _).symm

/-- The order in which entries are looked at is lost when their keys are sorted. -/
theorem sort_keys_filter {entries : List (Change τ)} (h : entries.Perm d.toList)
    (p : Change τ → Bool) :
    ((entries.filter p).map key).mergeSort (fun k k' => decide (k ≤ k')) =
      (d.toList.filter p).map key := by
  have hascending : ((d.toList.filter p).map key).Pairwise (· < ·) :=
    List.pairwise_map.2 (d.ascending.sublist List.filter_sublist)
  symm
  apply eq_of_perm_sorted hascending (List.pairwise_mergeSort Text.decide_le_trans
    Text.decide_le_total _)
  exact ((h.filter p).map key).symm.trans (List.mergeSort_perm _ _).symm

end Diff

namespace Snapshot

variable {s t : Snapshot τ} {k : String}

theorem mem_keys_iff : k ∈ s.items.keys ↔ (s.get? k).isSome := by
  rw [← Table.contains_iff_mem_keys]
  rfl

theorem mem_added_iff :
    k ∈ (s.diff t).keysWithStatus .added ↔ (s.get? k).isSome ∧ t.get? k = none := by
  rw [Diff.mem_keysWithStatus, get?_diff]
  cases s.get? k with
  | none => cases t.get? k <;> simp [Change.between?, Change.status]
  | some a => cases t.get? k <;> simp [Change.between?, Change.status]

theorem mem_removed_iff :
    k ∈ (s.diff t).keysWithStatus .removed ↔ s.get? k = none ∧ (t.get? k).isSome := by
  rw [Diff.mem_keysWithStatus, get?_diff]
  cases s.get? k with
  | none => cases t.get? k <;> simp [Change.between?, Change.status]
  | some a => cases t.get? k <;> simp [Change.between?, Change.status]

/-- The keys of both sides, from one side and from the other. -/
theorem perm_keys_append (s t : Snapshot τ) :
    (s.items.keys ++ (s.diff t).keysWithStatus .removed).Perm
      (t.items.keys ++ (s.diff t).keysWithStatus .added) := by
  have hremoved : s.items.keys.Disjoint ((s.diff t).keysWithStatus .removed) := by
    intro k hk hk'
    rw [mem_keys_iff, (mem_removed_iff.1 hk').1] at hk
    cases hk
  have hadded : t.items.keys.Disjoint ((s.diff t).keysWithStatus .added) := by
    intro k hk hk'
    rw [mem_keys_iff, (mem_added_iff.1 hk').2] at hk
    cases hk
  have hnodup : (s.items.keys ++ (s.diff t).keysWithStatus .removed).Nodup :=
    List.Nodup.append s.items.nodup_keys (Diff.nodup_keysWithStatus _ _) hremoved
  have hnodup' : (t.items.keys ++ (s.diff t).keysWithStatus .added).Nodup :=
    List.Nodup.append t.items.nodup_keys (Diff.nodup_keysWithStatus _ _) hadded
  apply (List.perm_ext_iff_of_nodup hnodup hnodup').2
  intro k
  -- on both sides these are the keys that at least one of the snapshots has
  rw [List.mem_append, List.mem_append, mem_removed_iff, mem_added_iff, mem_keys_iff, mem_keys_iff]
  cases s.get? k <;> cases t.get? k <;> simp

theorem count_balance (s t : Snapshot τ) :
    s.items.size + (s.diff t).count .removed = t.items.size + (s.diff t).count .added := by
  have hlength := (perm_keys_append s t).length_eq
  rw [List.length_append, List.length_append, Diff.length_keysWithStatus,
    Diff.length_keysWithStatus] at hlength
  rwa [Table.keys, Table.keys, List.length_map, List.length_map] at hlength

variable [LawfulItem τ]

theorem get?_diff_swap (s t : Snapshot τ) (k : String) :
    (t.diff s).get? k = ((s.diff t).get? k).map Change.mirror := by
  rw [get?_diff, get?_diff]
  cases hs : s.get? k with
  | none => cases t.get? k <;> rfl
  | some a =>
    cases ht : t.get? k with
    | none => rfl
    | some b =>
      have hkey : key a = key b := (Table.mem_of_get? hs).2.trans (Table.mem_of_get? ht).2.symm
      simp only [Change.between?, LawfulItem.unchanged_comm hkey]
      split <;> rfl

theorem key_mirror_of_mem {c : Change τ} (h : c ∈ (s.diff t).toList) : key c.mirror = key c := by
  have hswap : (t.diff s).get? (key c) = some c.mirror := by
    rw [get?_diff_swap, Table.get?_key_of_mem h]
    rfl
  exact (Table.mem_of_get? hswap).2

theorem mem_diff_swap {c : Change τ} :
    c ∈ (t.diff s).toList ↔ c ∈ (s.diff t).toList.map Change.mirror := by
  have hget : ∀ d : Diff τ, c ∈ d.toList ↔ d.get? (key c) = some c := fun d => by
    rw [Table.get?_eq_some_iff, and_iff_left rfl]
  rw [hget, get?_diff_swap, Option.map_eq_some_iff, List.mem_map]
  constructor
  · rintro ⟨c', hc', rfl⟩
    exact ⟨c', (Table.mem_of_get? hc').1, rfl⟩
  · rintro ⟨c', hc', rfl⟩
    exact ⟨c', by rw [key_mirror_of_mem hc', Table.get?_key_of_mem hc'], rfl⟩

/-- The other way round, a difference has the same entries from the other side. -/
theorem toList_diff_swap (s t : Snapshot τ) :
    (t.diff s).toList = (s.diff t).toList.map Change.mirror := by
  have hascending : Ascending ((s.diff t).toList.map Change.mirror) := by
    apply List.pairwise_map.2
    apply (s.diff t).ascending.imp_of_mem
    intro c c' hc hc' hlt
    rwa [key_mirror_of_mem hc, key_mirror_of_mem hc']
  exact congrArg Table.toList (Table.ext_mem (u := ⟨_, hascending⟩) fun _ => mem_diff_swap)

theorem isEmpty_diff_iff : (s.diff t).isEmpty = true ↔
    ∀ item, item ∈ s.items.toList ↔ item ∈ t.items.toList := by
  rw [Table.isEmpty_iff_get?]
  simp only [get?_diff_eq_none_iff]
  constructor
  · intro h item
    rw [show s.items = t.items from Table.ext_get? h]
  · intro h k
    rw [get?, get?, Table.ext_mem h]

/-- All that the two differences of two snapshots have to do with each other and with the number of items,
and how the keys of one of them are listed. -/
structure DiffMirrored (s t : Snapshot τ) : Prop where
  /-- The same keys in both directions, with the statuses and the two items of each exchanged. -/
  swapped : (t.diff s).toList = (s.diff t).toList.map Change.mirror
  swapped_at : ∀ k, (t.diff s).get? k = ((s.diff t).get? k).map Change.mirror
  balance : s.items.size + (s.diff t).count .removed = t.items.size + (s.diff t).count .added
  isEmpty_iff : (s.diff t).isEmpty = true ↔ ∀ item, item ∈ s.items.toList ↔ item ∈ t.items.toList
  /-- The keys of a status are in the order of their bytes. -/
  ascending : ∀ status, ((s.diff t).keysWithStatus status).Pairwise fun k k' =>
    Utf8.encode k < Utf8.encode k'
  counted : ∀ status, ((s.diff t).keysWithStatus status).length = (s.diff t).count status
  disjoint : ∀ status status', status ≠ status' →
    ((s.diff t).keysWithStatus status).Disjoint ((s.diff t).keysWithStatus status')
  together : ((s.diff t).keysWithStatus .added ++ (s.diff t).keysWithStatus .removed ++
    (s.diff t).keysWithStatus .changed).Perm (s.diff t).keys
  merged : (s.diff t).addedOrChangedKeys =
    ((s.diff t).keysWithStatus .added).merge ((s.diff t).keysWithStatus .changed)
      fun k k' => decide (k ≤ k')
  merged_ascending : (s.diff t).addedOrChangedKeys.Pairwise fun k k' =>
    Utf8.encode k < Utf8.encode k'
  /-- The lists come about by sorting, and it does not matter in which order the entries were. -/
  any_order : ∀ entries : List (Change τ), entries.Perm (s.diff t).toList →
    (∀ status, ((entries.filter (·.status = status)).map key).mergeSort (fun k k' => decide (k ≤ k')) =
      (s.diff t).keysWithStatus status) ∧
    ((entries.filter (·.status ≠ .removed)).map key).mergeSort (fun k k' => decide (k ≤ k')) =
      (s.diff t).addedOrChangedKeys

theorem diffMirrored (s t : Snapshot τ) : DiffMirrored s t where
  swapped := toList_diff_swap s t
  swapped_at := get?_diff_swap s t
  balance := count_balance s t
  isEmpty_iff := isEmpty_diff_iff
  ascending status := ((s.diff t).ascending_keysWithStatus status).imp Utf8.encode_lt_encode_iff.2
  counted := (s.diff t).length_keysWithStatus
  disjoint _ _ := (s.diff t).disjoint_keysWithStatus
  together := (s.diff t).perm_keys
  merged := (s.diff t).addedOrChangedKeys_eq_merge
  merged_ascending := (s.diff t).ascending_addedOrChangedKeys.imp Utf8.encode_lt_encode_iff.2
  any_order _ hperm :=
    ⟨fun _ => (s.diff t).sort_keys_filter hperm _, (s.diff t).sort_keys_filter hperm _⟩

end Snapshot

end Keys

/-- Between any two snapshots the two differences mirror each other, and the keys of each are sorted and
counted without a gap. -/
theorem differences_mirror_each_other :
    (∀ s t : Snapshot FileItem, s.DiffMirrored t) ∧ ∀ s t : Snapshot KeyItem, s.DiffMirrored t :=
  ⟨Snapshot.diffMirrored, Snapshot.diffMirrored⟩

end BuildDelta
