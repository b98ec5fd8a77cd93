/-!
# Tables

A table holds values that name their own key, in strictly ascending order of keys. It is at once a
map, seen through `get?`, and the one list that the map is written as, seen through `toList`.
Two tables with the same look-ups are equal (`ext_get?`), so nothing about the order in which a
table was filled can be seen in it.
-/

namespace BuildDelta

/-- Values that carry their key. -/
class Keyed (α : Type) where
  key : α → String

export Keyed (key)

/-- A name with something under it. -/
instance {β : Type} : Keyed (String × β) where
  key p := p.1

variable {α β : Type} [Keyed α] [Keyed β]

/-- Strictly ascending keys; in particular no key occurs twice. -/
abbrev Ascending (as : List α) : Prop :=
  as.Pairwise (key · < key ·)

@[ext] structure Table (α : Type) [Keyed α] where
  toList : List α
  ascending : Ascending toList

namespace Table

instance [DecidableEq α] : DecidableEq (Table α) := fun t u =>
  decidable_of_iff (t.toList = u.toList) Table.ext_iff.symm

def empty : Table α := ⟨[], .nil⟩

def size (t : Table α) : Nat := t.toList.length

def isEmpty (t : Table α) : Bool := t.toList.isEmpty

def keys (t : Table α) : List String := t.toList.map key

def get? (t : Table α) (k : String) : Option α :=
  t.toList.find? fun a => key a = k

def contains (t : Table α) (k : String) : Bool :=
  (t.get? k).isSome

theorem mem_of_get? {t : Table α} {k : String} {a : α} (h : t.get? k = some a) :
    a ∈ t.toList ∧ key a = k := by
  have hk := List.find?_some h
  exact ⟨List.mem_of_find?_eq_some h, by simpa using hk⟩

private theorem find?_of_mem {as : List α} {a : α} (h : Ascending as) (ha : a ∈ as) :
    as.find? (fun b => key b = key a) = some a := by
  induction as with
  | nil => simp at ha
  | cons b bs ih =>
    obtain ⟨hb, hbs⟩ := List.pairwise_cons.1 h
    rcases List.mem_cons.1 ha with rfl | hmem
    · simp
    · have hne : key b ≠ key a := fun he => String.lt_irrefl _ (he ▸ hb a hmem)
      simpa [hne] using ih hbs hmem

theorem get?_key_of_mem {t : Table α} {a : α} (ha : a ∈ t.toList) : t.get? (key a) = some a :=
  find?_of_mem t.ascending ha

theorem get?_eq_some_iff {t : Table α} {k : String} {a : α} :
    t.get? k = some a ↔ a ∈ t.toList ∧ key a = k :=
  ⟨mem_of_get?, fun ⟨ha, hk⟩ => hk ▸ get?_key_of_mem ha⟩

theorem get?_eq_none_iff {t : Table α} {k : String} :
    t.get? k = none ↔ ∀ a ∈ t.toList, key a ≠ k := by
  simp [get?]

private theorem eq_of_mem_iff {as bs : List α} (ha : Ascending as) (hb : Ascending bs)
    (h : ∀ c, c ∈ as ↔ c ∈ bs) : as = bs := by
  induction as generalizing bs with
  | nil =>
    cases bs with
    | nil => rfl
    | cons b bs => exact absurd ((h b).2 (by simp)) (by simp)
  | cons a as ih =>
    cases bs with
    | nil => exact absurd ((h a).1 (by simp)) (by simp)
    | cons b bs =>
      obtain ⟨ha', has⟩ := List.pairwise_cons.1 ha
      obtain ⟨hb', hbs⟩ := List.pairwise_cons.1 hb
      have hab : a = b := by
        rcases List.mem_cons.1 ((h a).1 (by simp)) with heq | hmem
        · exact heq
        · rcases List.mem_cons.1 ((h b).2 (by simp)) with heq | hmem'
          · exact heq.symm
          · exact absurd (String.lt_trans (hb' a hmem) (ha' b hmem')) (String.lt_irrefl _)
      subst hab
      congr 1
      refine ih has hbs fun c => ?_
      constructor
      · intro hc
        rcases List.mem_cons.1 ((h c).1 (List.mem_cons_of_mem _ hc)) with rfl | hmem
        · exact absurd (ha' c hc) (String.lt_irrefl _)
        · exact hmem
      · intro hc
        rcases List.mem_cons.1 ((h c).2 (List.mem_cons_of_mem _ hc)) with rfl | hmem
        · exact absurd (hb' c hc) (String.lt_irrefl _)
        · exact hmem

theorem ext_get? {t u : Table α} (h : ∀ k, t.get? k = u.get? k) : t = u := by
  refine Table.ext (eq_of_mem_iff t.ascending u.ascending fun c => ?_)
  constructor
  · intro hc
    exact (mem_of_get? ((h _) ▸ get?_key_of_mem hc)).1
  · intro hc
    exact (mem_of_get? ((h _).symm ▸ get?_key_of_mem hc)).1

/-- Puts a value at its place, instead of one with the same key. -/
private def insertInto (a : α) : List α → List α
  | [] => [a]
  | b :: bs =>
    if key a < key b then a :: b :: bs
    else if key b < key a then b :: insertInto a bs
    else a :: bs

private theorem eq_of_not_lt {s t : String} (h : ¬s < t) (h' : ¬t < s) : s = t :=
  String.le_antisymm (String.not_lt.1 h') (String.not_lt.1 h)

private theorem mem_of_mem_insertInto {a c : α} {as : List α} (h : c ∈ insertInto a as) :
    c = a ∨ c ∈ as := by
  induction as with
  | nil => simpa [insertInto] using h
  | cons b bs ih =>
    unfold insertInto at h
    split at h
    · simpa using h
    · split at h
      · rcases List.mem_cons.1 h with rfl | hmem
        · simp
        · rcases ih hmem with rfl | hbs
          · simp
          · simp [hbs]
      · rcases List.mem_cons.1 h with rfl | hmem
        · simp
        · simp [hmem]

private theorem ascending_insertInto (a : α) {as : List α} (h : Ascending as) :
    Ascending (insertInto a as) := by
  induction as with
  | nil => simp [insertInto]
  | cons b bs ih =>
    obtain ⟨hb, hbs⟩ := List.pairwise_cons.1 h
    unfold insertInto
    split
    · rename_i hlt
      refine List.pairwise_cons.2 ⟨fun c hc => ?_, h⟩
      rcases List.mem_cons.1 hc with rfl | hmem
      · exact hlt
      · exact String.lt_trans hlt (hb c hmem)
    · split
      · rename_i hlt
        refine List.pairwise_cons.2 ⟨fun c hc => ?_, ih hbs⟩
        rcases mem_of_mem_insertInto hc with rfl | hmem
        · exact hlt
        · exact hb c hmem
      · rename_i hnot hnot'
        have heq := eq_of_not_lt hnot hnot'
        exact List.pairwise_cons.2 ⟨fun c hc => heq ▸ hb c hc, hbs⟩

private theorem find?_insertInto (a : α) (as : List α) (k : String) :
    (insertInto a as).find? (fun b => key b = k) =
      if key a = k then some a else as.find? fun b => key b = k := by
  induction as with
  | nil => by_cases h : key a = k <;> simp [insertInto, h]
  | cons b bs ih =>
    unfold insertInto
    split
    · by_cases h : key a = k <;> simp [h]
    · split
      · rename_i hlt
        by_cases hb : key b = k
        · have ha : key a ≠ k := fun he => String.lt_irrefl k (by rw [hb, he] at hlt; exact hlt)
          simp [hb, ha]
        · simp [hb, ih]
      · rename_i hnot hnot'
        have heq := eq_of_not_lt hnot hnot'
        by_cases ha : key a = k
        · simp [ha]
        · have hb : key b ≠ k := heq ▸ ha
          simp [ha, hb]

/-- Adds a value. One with the same key gives way. -/
def insert (t : Table α) (a : α) : Table α :=
  ⟨insertInto a t.toList, ascending_insertInto a t.ascending⟩

theorem get?_insert (t : Table α) (a : α) (k : String) :
    (t.insert a).get? k = if key a = k then some a else t.get? k :=
  find?_insertInto a t.toList k

/-- Of values with the same key, the last one. -/
def ofList (as : List α) : Table α :=
  as.foldl insert empty

/-- Adds values whose keys are new, or gives the first key that is there already. -/
def insertNew (t : Table α) : List α → Except String (Table α)
  | [] => .ok t
  | a :: as => if t.contains (key a) then .error (key a) else (t.insert a).insertNew as

/-- All of the values, or the key of the first whose key occurred before. -/
def ofList? (as : List α) : Except String (Table α) :=
  empty.insertNew as

/-- Keeps and changes values, but never their keys. -/
def filterMap (t : Table α) (f : α → Option β) (key_eq : ∀ a b, f a = some b → key b = key a) :
    Table β where
  toList := t.toList.filterMap f
  ascending := by
    refine List.Pairwise.filterMap f ?_ t.ascending
    intro a a' hlt b hb b' hb'
    rw [key_eq a b hb, key_eq a' b' hb']
    exact hlt

theorem get?_filterMap (t : Table α) (f : α → Option β)
    (key_eq : ∀ a b, f a = some b → key b = key a) (k : String) :
    (t.filterMap f key_eq).get? k = (t.get? k).bind f := by
  ext b
  rw [get?_eq_some_iff, Option.bind_eq_some_iff]
  constructor
  · rintro ⟨hmem, hk⟩
    obtain ⟨a, ha, hf⟩ := List.mem_filterMap.1 hmem
    exact ⟨a, get?_eq_some_iff.2 ⟨ha, by rw [← key_eq a b hf, hk]⟩, hf⟩
  · rintro ⟨a, ha, hf⟩
    obtain ⟨hmem, hk⟩ := mem_of_get? ha
    exact ⟨List.mem_filterMap.2 ⟨a, hmem, hf⟩, by rw [key_eq a b hf, hk]⟩

end Table

end BuildDelta
