import BuildDelta.Table.Basic
/-!
# Two tables side by side

`align` runs through two tables at once and pairs what has the same key. Every key of either table
turns up once, with what each table holds under it (`left?_get?_align`, `right?_get?_align`).
Comparing tables and merging them are both ways to keep part of an alignment.
-/

namespace BuildDelta

variable {α β : Type} [Keyed α] [Keyed β]

/-- What two tables hold under one key. -/
inductive Aligned (α β : Type) [Keyed α] [Keyed β] where
  | left (a : α)
  | right (b : β)
  | both (a : α) (b : β) (key_eq : key a = key b)

namespace Aligned

instance : Keyed (Aligned α β) where
  key
    | .left a => key a
    | .right b => key b
    | .both a _ _ => key a

def left? : Aligned α β → Option α
  | .left a => some a
  | .right _ => none
  | .both a _ _ => some a

def right? : Aligned α β → Option β
  | .left _ => none
  | .right b => some b
  | .both _ b _ => some b

@[simp] theorem left?_left (a : α) : (left a : Aligned α β).left? = some a := rfl
@[simp] theorem left?_right (b : β) : (right b : Aligned α β).left? = none := rfl
@[simp] theorem left?_both {a : α} {b : β} (h : key a = key b) : (both a b h).left? = some a := rfl
@[simp] theorem right?_left (a : α) : (left a : Aligned α β).right? = none := rfl
@[simp] theorem right?_right (b : β) : (right b : Aligned α β).right? = some b := rfl
@[simp] theorem right?_both {a : α} {b : β} (h : key a = key b) : (both a b h).right? = some b := rfl

theorem key_of_left? {c : Aligned α β} {a : α} (h : c.left? = some a) : key a = key c := by
  cases c with
  | left => simp_all [key]
  | right => simp at h
  | both => simp_all [key]

theorem key_of_right? {c : Aligned α β} {b : β} (h : c.right? = some b) : key b = key c := by
  cases c with
  | left => simp at h
  | right => simp_all [key]
  | both a b' heq =>
    obtain rfl : b' = b := by simpa using h
    exact heq.symm

end Aligned

namespace Table

/-- Passes the values of `bs` that come before `a`, then `a` itself, and leaves the rest to `next`. -/
private def alignAt (a : α) (next : List β → List (Aligned α β)) :
    List β → List (Aligned α β)
  | [] => .left a :: next []
  | b :: bs =>
    if hab : key a < key b then .left a :: next (b :: bs)
    else if hba : key b < key a then .right b :: alignAt a next bs
    else .both a b (String.le_antisymm (String.not_lt.1 hba) (String.not_lt.1 hab)) :: next bs

private def alignLists : List α → List β → List (Aligned α β)
  | [] => List.map .right
  | a :: as => alignAt a (alignLists as)

private theorem forall_alignLists {as : List α} {bs : List β} {p : String → Prop}
    (ha : ∀ a ∈ as, p (key a)) (hb : ∀ b ∈ bs, p (key b)) :
    ∀ c ∈ alignLists as bs, p (key c) := by
  induction as generalizing bs with
  | nil =>
    intro c hc
    obtain ⟨b, hmem, rfl⟩ := List.mem_map.1 hc
    exact hb b hmem
  | cons a as ih =>
    have has : ∀ a ∈ as, p (key a) := fun a h => ha a (List.mem_cons_of_mem _ h)
    have hhead : p (key a) := ha a (by simp)
    unfold alignLists
    induction bs with
    | nil =>
      intro c hc
      rcases List.mem_cons.1 hc with rfl | hmem
      · exact hhead
      · exact ih has (by simp) c hmem
    | cons b bs ihb =>
      have hbs : ∀ b ∈ bs, p (key b) := fun b h => hb b (List.mem_cons_of_mem _ h)
      unfold alignAt
      split
      · intro c hc
        rcases List.mem_cons.1 hc with rfl | hmem
        · exact hhead
        · exact ih has hb c hmem
      · split
        · intro c hc
          rcases List.mem_cons.1 hc with rfl | hmem
          · exact hb b (by simp)
          · exact ihb hbs c hmem
        · intro c hc
          rcases List.mem_cons.1 hc with rfl | hmem
          · exact hhead
          · exact ih has hbs c hmem

private theorem ascending_alignLists {as : List α} {bs : List β} (ha : Ascending as)
    (hb : Ascending bs) : Ascending (alignLists as bs) := by
  induction as generalizing bs with
  | nil =>
    refine List.Pairwise.map _ ?_ hb
    intro b b' h
    exact h
  | cons a as ih =>
    obtain ⟨hlt, has⟩ := List.pairwise_cons.1 ha
    unfold alignLists
    induction bs with
    | nil =>
      exact List.pairwise_cons.2 ⟨forall_alignLists hlt (by simp), ih has .nil⟩
    | cons b bs ihb =>
      obtain ⟨hltb, hbs⟩ := List.pairwise_cons.1 hb
      unfold alignAt
      split
      · rename_i hab
        refine List.pairwise_cons.2 ⟨forall_alignLists hlt fun c hc => ?_, ih has hb⟩
        rcases List.mem_cons.1 hc with rfl | hmem
        · exact hab
        · exact String.lt_trans hab (hltb c hmem)
      · split
        · rename_i hba
          refine List.pairwise_cons.2 ⟨?_, ihb hbs⟩
          have hall : ∀ c ∈ alignLists (a :: as) bs, key b < key c :=
            forall_alignLists (fun c hc => ?_) hltb
          · exact hall
          · rcases List.mem_cons.1 hc with rfl | hmem
            · exact hba
            · exact String.lt_trans hba (hlt c hmem)
        · rename_i hab hba
          have heq := String.le_antisymm (String.not_lt.1 hba) (String.not_lt.1 hab)
          refine List.pairwise_cons.2 ⟨forall_alignLists hlt fun c hc => ?_, ih has hbs⟩
          exact heq ▸ hltb c hc

def align (t : Table α) (u : Table β) : Table (Aligned α β) :=
  ⟨alignLists t.toList u.toList, ascending_alignLists t.ascending u.ascending⟩

private theorem filterMap_left?_alignLists (as : List α) (bs : List β) :
    (alignLists as bs).filterMap Aligned.left? = as := by
  induction as generalizing bs with
  | nil =>
    unfold alignLists
    induction bs with
    | nil => rfl
    | cons b bs ih => rw [List.map_cons, List.filterMap_cons_none (by simp), ih]
  | cons a as ih =>
    unfold alignLists
    induction bs with
    | nil => rw [alignAt, List.filterMap_cons_some (Aligned.left?_left a), ih]
    | cons b bs ihb =>
      unfold alignAt
      split
      · rw [List.filterMap_cons_some (Aligned.left?_left a), ih]
      · split
        · rw [List.filterMap_cons_none (by simp), ihb]
        · rw [List.filterMap_cons_some (Aligned.left?_both _), ih]

private theorem filterMap_right?_alignLists (as : List α) (bs : List β) :
    (alignLists as bs).filterMap Aligned.right? = bs := by
  induction as generalizing bs with
  | nil =>
    unfold alignLists
    induction bs with
    | nil => rfl
    | cons b bs ih => rw [List.map_cons, List.filterMap_cons_some (Aligned.right?_right b), ih]
  | cons a as ih =>
    unfold alignLists
    induction bs with
    | nil => rw [alignAt, List.filterMap_cons_none (by simp), ih]
    | cons b bs ihb =>
      unfold alignAt
      split
      · rw [List.filterMap_cons_none (by simp), ih]
      · split
        · rw [List.filterMap_cons_some (Aligned.right?_right b), ihb]
        · rw [List.filterMap_cons_some (Aligned.right?_both _), ih]

/-- The left sides of an alignment are the left table. -/
theorem left?_get?_align (t : Table α) (u : Table β) (k : String) :
    ((t.align u).get? k).bind Aligned.left? = t.get? k := by
  rw [← get?_filterMap _ _ fun _ _ => Aligned.key_of_left?]
  congr 1
  exact Table.ext (filterMap_left?_alignLists t.toList u.toList)

/-- The right sides of an alignment are the right table. -/
theorem right?_get?_align (t : Table α) (u : Table β) (k : String) :
    ((t.align u).get? k).bind Aligned.right? = u.get? k := by
  rw [← get?_filterMap _ _ fun _ _ => Aligned.key_of_right?]
  congr 1
  exact Table.ext (filterMap_right?_alignLists t.toList u.toList)

private theorem key_of_or {c : Aligned α α} {a : α} (h : c.right?.or c.left? = some a) :
    key a = key c := by
  cases hr : c.right? with
  | none => exact Aligned.key_of_left? (by simpa [hr] using h)
  | some b => exact Aligned.key_of_right? (by simpa [hr] using h)

/-- Everything that either table holds; where both hold a value, the right one. -/
def merge (t u : Table α) : Table α :=
  (t.align u).filterMap (fun c => c.right?.or c.left?) fun _ _ => key_of_or

theorem get?_merge (t u : Table α) (k : String) :
    (t.merge u).get? k = (u.get? k).or (t.get? k) := by
  rw [merge, get?_filterMap, ← left?_get?_align t u k, ← right?_get?_align t u k]
  cases (t.align u).get? k <;> rfl

end Table

end BuildDelta
