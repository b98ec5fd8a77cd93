import BuildDelta.Proofs.Table.Building
import BuildDelta.Table.Align
import Mathlib.Data.Finset.Card
/-!
# Merged tables

Merging is a union in which the right table has the say over the keys that both have. Two tables are the
same as soon as their look-ups are, so its laws are those of `Option.or` (`Table.get?_merge`): the empty
table changes nothing on either side, merging a table with itself changes nothing, and it does not matter
where the brackets stand. What is counted in the result are the keys of either side (`Table.size_merge`).
-/

namespace BuildDelta.Table

variable {α : Type} [Keyed α]

@[simp] theorem get?_empty (k : String) : (empty : Table α).get? k = none := by
  rfl

theorem merge_empty (t : Table α) : t.merge empty = t := by
  apply ext_get?
  intro k
  rw [get?_merge, get?_empty, Option.none_or]

theorem empty_merge (t : Table α) : empty.merge t = t := by
  apply ext_get?
  intro k
  rw [get?_merge, get?_empty, Option.or_none]

theorem merge_self (t : Table α) : t.merge t = t := by
  apply ext_get?
  intro k
  rw [get?_merge, Option.or_self]

theorem merge_assoc (t u v : Table α) : (t.merge u).merge v = t.merge (u.merge v) := by
  apply ext_get?
  intro k
  rw [get?_merge, get?_merge, get?_merge, get?_merge, Option.or_assoc]

theorem mem_keys_merge {t u : Table α} {k : String} :
    k ∈ (t.merge u).keys ↔ k ∈ t.keys ∨ k ∈ u.keys := by
  rw [← contains_iff_mem_keys, ← contains_iff_mem_keys, ← contains_iff_mem_keys, contains, get?_merge,
    Option.isSome_or, Bool.or_eq_true, or_comm]
  rfl

/-- No key is listed twice, so the size of a table is the number of its keys. -/
theorem size_eq_card_keys (t : Table α) : t.size = t.keys.toFinset.card := by
  have hnodup : t.keys.Nodup := t.nodup_keys
  rw [List.toFinset_card_of_nodup hnodup, keys, List.length_map, size]

theorem size_merge (t u : Table α) : (t.merge u).size = (t.keys.toFinset ∪ u.keys.toFinset).card := by
  have hkeys : (t.merge u).keys.toFinset = t.keys.toFinset ∪ u.keys.toFinset := by
    ext k
    rw [List.mem_toFinset, mem_keys_merge, Finset.mem_union, List.mem_toFinset, List.mem_toFinset]
  rw [size_eq_card_keys, hkeys]

end BuildDelta.Table
