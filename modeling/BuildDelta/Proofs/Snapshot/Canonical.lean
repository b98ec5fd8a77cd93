import BuildDelta.Proofs.Snapshot.Building
import BuildDelta.Proofs.Text.Order
/-!
# One form for each snapshot

What is written for a snapshot depends on its root and on which items it holds, and on nothing else: not on
the order in which they were supplied (`Snapshot.Canonical.bytes_iff`, `Snapshot.Canonical.text_iff`), nor
on the order in which a collection without one hands them out to be sorted
(`Snapshot.Canonical.any_order`). Since what is written can be read back, it tells different snapshots
apart.
-/

namespace BuildDelta

open Wire

namespace Table

variable {α : Type} [Keyed α]

/-- The values of a collection, in order of their keys. -/
def sortByKey (values : List α) : List α :=
  values.mergeSort fun a b => decide (key a ≤ key b)

theorem pairwise_sortByKey (values : List α) :
    (sortByKey values).Pairwise fun a b => decide (key a ≤ key b) = true :=
  List.pairwise_mergeSort (fun a b c => Text.decide_le_trans (key a) (key b) (key c))
    (fun a b => Text.decide_le_total (key a) (key b)) _

/-- Different keys leave nothing to choose: any order of the values is sorted into the same one. -/
theorem sortByKey_of_perm {values : List α} {t : Table α} (h : values.Perm t.toList) :
    sortByKey values = t.toList := by
  have hperm : (sortByKey values).Perm t.toList := (List.mergeSort_perm values _).trans h
  have hsorted : t.toList.Pairwise fun a b => decide (key a ≤ key b) = true :=
    t.ascending.imp fun hlt => decide_eq_true (String.not_lt.1 (String.lt_asymm hlt))
  apply List.Perm.eq_of_pairwise ?_ (pairwise_sortByKey values) hsorted hperm
  intro a b ha hb hab hba
  have hkey : key a = key b :=
    String.le_antisymm (of_decide_eq_true hab) (of_decide_eq_true hba)
  have hget := get?_key_of_mem (hperm.mem_iff.1 ha)
  rw [hkey, get?_key_of_mem hb] at hget
  exact (Option.some.inj hget).symm

end Table

namespace Snapshot

variable {τ : Type} [Item τ] {s t : Snapshot τ} {root root' : String} {items items' : List τ}

theorem eq_of_parts (hroot : s.root = t.root) (hitems : s.items = t.items) : s = t := by
  cases s
  cases t
  cases hroot
  cases hitems
  rfl

/-- Two lists are built into one snapshot exactly if they are one list in two orders. -/
theorem eq_iff_of_ofItems (hs : ofItems root items = .ok s) (ht : ofItems root' items' = .ok t) :
    s = t ↔ root = root' ∧ items.Perm items' := by
  rw [ofItems_eq_ok_iff] at hs ht
  obtain ⟨rfl, -, hitems⟩ := hs
  obtain ⟨rfl, -, hitems'⟩ := ht
  constructor
  · rintro rfl
    exact ⟨rfl, hitems.trans hitems'.symm⟩
  · rintro ⟨hroot, hperm⟩
    apply eq_of_parts hroot
    apply Table.ext_mem
    intro a
    rw [← hitems.mem_iff, hperm.mem_iff, hitems'.mem_iff]

variable [Format τ] [Lawful τ]

theorem serialize_inj (hs : Fits s) (ht : Fits t) (checksum : Frame.Checksum) :
    s.serialize checksum = t.serialize checksum ↔ s = t :=
  eq_iff_of_read_back (serialize · checksum) (deserialize · checksum)
    (deserialize_serialize hs checksum) (deserialize_serialize ht checksum)

variable [Json.Format τ] [Json.Lawful τ]

omit [Format τ] [Lawful τ] in
theorem write_inj : Json.write s = Json.write t ↔ s = t :=
  eq_iff_of_read_back Json.write Json.decode (Json.decode_write s) (Json.decode_write t)

/-- All that makes the form of snapshots over one sort of items canonical. -/
structure Canonical (τ : Type) [Item τ] [Format τ] [Lawful τ] [Json.Format τ] : Prop where
  bytes_iff : ∀ (root root' : String) (items items' : List τ) (s t : Snapshot τ),
    ofItems root items = .ok s → ofItems root' items' = .ok t → Fits s → Fits t →
    ∀ checksum, s.serialize checksum = t.serialize checksum ↔ root = root' ∧ items.Perm items'
  text_iff : ∀ (root root' : String) (items items' : List τ) (s t : Snapshot τ),
    ofItems root items = .ok s → ofItems root' items' = .ok t →
    (Json.write s = Json.write t ↔ root = root' ∧ items.Perm items')
  /-- The forms, also the one inside a larger state, come about by sorting the items, and it does not
  matter in which order these were. -/
  any_order : ∀ (s : Snapshot τ) (values : List τ), values.Perm s.items.toList →
    (∀ checksum, stateOf s.root (Table.sortByKey values) checksum = s.serialize checksum) ∧
      write s.root ++ write (Table.sortByKey values) = write s ∧
      Json.compact (partTokens s.root (Table.sortByKey values)) = Json.write s

theorem canonical : Canonical τ where
  bytes_iff _ _ _ _ _ _ hs ht hfits hfits' _ := by
    rw [serialize_inj hfits hfits', eq_iff_of_ofItems hs ht]
  text_iff _ _ _ _ _ _ hs ht := by
    rw [write_inj, eq_iff_of_ofItems hs ht]
  any_order s values hperm := by
    rw [Table.sortByKey_of_perm hperm]
    exact ⟨fun _ => rfl, rfl, rfl⟩

end Snapshot

end BuildDelta
