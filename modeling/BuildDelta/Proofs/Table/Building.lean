import BuildDelta.Table.Basic
import Mathlib.Data.List.Nodup
import Mathlib.Data.List.Perm.Subperm
/-!
# Tables made of lists

A list makes a table exactly when its keys are different, and the table holds then what the list does
(`Table.ofList?_eq_ok_iff`). The order of the list does not matter, but for which key is named if some
occur again (`Table.exists_firstRepeated`). Any list makes a table if later values may take the place of
earlier ones, and no key is lost then (`Table.contains_ofList`).
-/

namespace BuildDelta.Table

variable {α : Type} [Keyed α] {t u : Table α} {a : α} {as : List α}

theorem nodup_keys (t : Table α) : (t.toList.map key).Nodup :=
  List.pairwise_map.2 (t.ascending.imp fun hlt => String.ne_of_lt hlt)

theorem nodup (t : Table α) : t.toList.Nodup := t.nodup_keys.of_map

theorem ext_mem (h : ∀ a, a ∈ t.toList ↔ a ∈ u.toList) : t = u := by
  refine ext_get? fun k => ?_
  ext a
  rw [get?_eq_some_iff, get?_eq_some_iff, h]

theorem contains_eq_false_iff {k : String} : t.contains k = false ↔ k ∉ t.toList.map key := by
  rw [contains, Option.isSome_eq_false_iff, Option.isNone_iff_eq_none, get?_eq_none_iff]
  simp

theorem perm_insert (h : t.contains (key a) = false) : (t.insert a).toList.Perm (a :: t.toList) := by
  rw [contains_eq_false_iff] at h
  have hnew : a ∉ t.toList := fun ha => h (List.mem_map_of_mem ha)
  refine (List.perm_ext_iff_of_nodup (nodup _) (List.nodup_cons.2 ⟨hnew, nodup t⟩)).2 fun b => ?_
  have hmem : b ∈ (t.insert a).toList ↔ (t.insert a).get? (key b) = some b := by
    rw [get?_eq_some_iff, and_iff_left rfl]
  rw [hmem, get?_insert, List.mem_cons]
  split
  · rename_i hkey
    rw [Option.some_inj]
    constructor
    · exact fun heq => .inl heq.symm
    · rintro (heq | hb)
      · exact heq.symm
      · exact absurd (hkey ▸ List.mem_map_of_mem hb) h
  · rename_i hkey
    rw [get?_eq_some_iff, and_iff_left rfl, or_iff_right]
    rintro rfl
    exact hkey rfl

theorem perm_of_insertNew (h : t.insertNew as = .ok u) : (as ++ t.toList).Perm u.toList := by
  induction as generalizing t with
  | nil =>
    cases h
    exact .refl _
  | cons a as ih =>
    rw [insertNew] at h
    split at h
    · cases h
    · rename_i hnew
      have hperm := perm_insert (eq_false_of_ne_true hnew)
      exact (List.perm_middle.symm.trans (hperm.symm.append_left as)).trans (ih h)

theorem exists_insertNew (h : ((as ++ t.toList).map key).Nodup) : ∃ u, t.insertNew as = .ok u := by
  induction as generalizing t with
  | nil => exact ⟨t, rfl⟩
  | cons a as ih =>
    rw [List.cons_append, List.map_cons, List.nodup_cons] at h
    have hnew : t.contains (key a) = false := by
      rw [contains_eq_false_iff]
      intro hmem
      exact h.1 (by rw [List.map_append]; exact List.mem_append_right _ hmem)
    have hperm := ((perm_insert hnew).append_left as).trans List.perm_middle
    rw [insertNew, hnew, if_neg Bool.false_ne_true]
    refine ih ((hperm.map key).nodup_iff.2 ?_)
    rw [List.map_cons, List.nodup_cons]
    exact h

theorem exists_ofList? (h : (as.map key).Nodup) : ∃ t, ofList? as = .ok t := by
  refine exists_insertNew ?_
  rwa [show (empty : Table α).toList = [] from rfl, List.append_nil]

/-- A list makes a table if no key occurs twice in it, and what it holds is what the table holds. -/
theorem ofList?_eq_ok_iff : ofList? as = .ok t ↔ (as.map key).Nodup ∧ as.Perm t.toList := by
  constructor
  · intro h
    have hperm := perm_of_insertNew h
    rw [show (empty : Table α).toList = [] from rfl, List.append_nil] at hperm
    exact ⟨(hperm.map key).nodup_iff.2 t.nodup_keys, hperm⟩
  · rintro ⟨hnodup, hperm⟩
    obtain ⟨u, hu⟩ := exists_ofList? hnodup
    have hperm' := perm_of_insertNew hu
    rw [show (empty : Table α).toList = [] from rfl, List.append_nil] at hperm'
    rw [hu, ext_mem fun a => hperm'.symm.mem_iff.trans hperm.mem_iff]

theorem contains_iff_mem_keys {k : String} : t.contains k = true ↔ k ∈ t.keys := by
  simp only [contains, Option.isSome_iff_exists, get?_eq_some_iff, keys, List.mem_map]

/-- The first value of a list whose key occurred before it has this key. -/
def FirstRepeated (as : List α) (k : String) : Prop :=
  ∃ front a back, as = front ++ a :: back ∧ key a = k ∧ (front.map key).Nodup ∧ k ∈ front.map key

theorem exists_of_insertNew_error {k : String} (h : t.insertNew as = .error k) :
    ∃ front a back, as = front ++ a :: back ∧ key a = k ∧ ((front ++ t.toList).map key).Nodup ∧
      k ∈ (front ++ t.toList).map key := by
  induction as generalizing t with
  | nil => cases h
  | cons a as ih =>
    rw [insertNew] at h
    split at h
    · rename_i hseen
      obtain rfl := Except.error.inj h
      refine ⟨[], a, as, rfl, rfl, t.nodup_keys, ?_⟩
      rwa [contains_iff_mem_keys] at hseen
    · rename_i hnew
      obtain ⟨front, b, back, rfl, rfl, hnodup, hmem⟩ := ih h
      have hperm := ((perm_insert (eq_false_of_ne_true hnew)).append_left front).trans List.perm_middle
      exact ⟨a :: front, b, back, rfl, rfl, (hperm.map key).nodup_iff.1 hnodup,
        (hperm.map key).mem_iff.1 hmem⟩

/-- A list that makes no table is refused with the key that occurs in it again first. -/
theorem exists_firstRepeated (h : ¬(as.map key).Nodup) :
    ∃ k, ofList? as = .error k ∧ FirstRepeated as k := by
  cases hlist : ofList? as with
  | ok t => exact absurd (ofList?_eq_ok_iff.1 hlist).1 h
  | error k =>
    obtain ⟨front, a, back, heq, hkey, hnodup, hmem⟩ := exists_of_insertNew_error hlist
    rw [show (empty : Table α).toList = [] from rfl, List.append_nil] at hnodup hmem
    exact ⟨k, rfl, front, a, back, heq, hkey, hnodup, hmem⟩

theorem insertNew_eq_ok (h : t.insertNew as = .ok u) : as.foldl insert t = u := by
  induction as generalizing t with
  | nil => exact Except.ok.inj h
  | cons a as ih =>
    rw [insertNew] at h
    split at h
    · cases h
    · exact ih h

theorem contains_insert (t : Table α) (a : α) (k : String) :
    (t.insert a).contains k = (t.contains k || k == key a) := by
  rw [contains, get?_insert]
  split
  · rename_i heq
    simp [heq]
  · rename_i hne
    simp [contains, Ne.symm hne]

theorem contains_foldl_insert (as : List α) (k : String) :
    (as.foldl insert t).contains k = (t.contains k || (as.map key).contains k) := by
  induction as generalizing t with
  | nil => simp
  | cons a as ih =>
    rw [List.foldl_cons, ih, contains_insert, List.map_cons, List.contains_cons, Bool.or_assoc]

theorem contains_ofList (as : List α) (k : String) :
    (ofList as).contains k = (as.map key).contains k :=
  contains_foldl_insert as k

/-- A list is the whole of the table that it makes if no later value takes an earlier one's place. -/
theorem perm_ofList_iff : as.Perm (ofList as).toList ↔ (as.map key).Nodup := by
  constructor
  · exact fun h => (h.map key).nodup_iff.2 (nodup_keys _)
  · intro h
    obtain ⟨u, hu⟩ := exists_ofList? h
    have hsame : ofList as = u := insertNew_eq_ok hu
    rw [hsame]
    exact (ofList?_eq_ok_iff.1 hu).2

theorem get?_foldl_insert (as : List α) (k : String) :
    (as.foldl insert t).get? k = (as.reverse.find? fun a => key a = k).or (t.get? k) := by
  induction as generalizing t with
  | nil => rfl
  | cons a as ih =>
    rw [List.foldl_cons, ih, get?_insert, List.reverse_cons, List.find?_append, Option.or_assoc]
    congr 1
    by_cases hkey : key a = k <;> simp [hkey]

/-- Of the values under a key, the last one stands. -/
theorem get?_ofList (as : List α) (k : String) :
    (ofList as).get? k = as.reverse.find? fun a => key a = k := by
  rw [ofList, get?_foldl_insert]
  exact Option.or_none

/-- No value is made up. -/
theorem subperm_ofList (as : List α) : (ofList as).toList.Subperm as := by
  apply (nodup _).subperm
  intro b hb
  have hget := get?_key_of_mem hb
  rw [get?_ofList] at hget
  exact List.mem_reverse.1 (List.mem_of_find?_eq_some hget)

/-- What is picked out of a table is picked by its key. -/
theorem mem_map_key_filter {p : α → Bool} {k : String} :
    k ∈ (t.toList.filter p).map key ↔ ∃ a, t.get? k = some a ∧ p a = true := by
  simp only [List.mem_map, List.mem_filter, get?_eq_some_iff]
  constructor
  · rintro ⟨a, ⟨hmem, hp⟩, hkey⟩
    exact ⟨a, ⟨hmem, hkey⟩, hp⟩
  · rintro ⟨a, ⟨hmem, hkey⟩, hp⟩
    exact ⟨a, ⟨hmem, hp⟩, hkey⟩

end BuildDelta.Table
