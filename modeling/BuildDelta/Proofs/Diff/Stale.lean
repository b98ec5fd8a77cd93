import BuildDelta.Diff.Stale
import BuildDelta.Proofs.Table.Building
/-!
# Which outputs are stale

The stale outputs of a difference are the patterns of its added and changed keys
(`Diff.mem_stalePatterns`), and a key has patterns exactly if it is a stem with the extension of a source
behind it, letter by letter (`Diff.mem_outputPatterns`). A set of patterns is a table of texts, so one
that several keys have is listed once.
-/

namespace BuildDelta

namespace Text

variable {ending s stem : String}

/-- What stands in front of an ending is what the ending was put behind. -/
theorem stem?_eq_some_iff : stem? ending s = some stem ↔ s = stem ++ ending := by
  unfold stem?
  constructor
  · intro h
    split at h
    · rename_i hsuffix
      obtain ⟨front, hfront⟩ := List.isSuffixOf_iff_suffix.1 hsuffix
      obtain rfl := Option.some.inj h
      apply String.toList_injective
      rw [String.toList_append, String.toList_ofList, ← hfront, List.length_append,
        Nat.add_sub_cancel, List.take_left]
    · cases h
  · rintro rfl
    have hsuffix : ending.toList.isSuffixOf (stem ++ ending).toList = true := by
      rw [List.isSuffixOf_iff_suffix, String.toList_append]
      exact List.suffix_append _ _
    rw [if_pos hsuffix, String.toList_append, List.length_append, Nat.add_sub_cancel, List.take_left,
      String.ofList_toList]

end Text

/-- A set of texts holds what the list holds that it was made of. -/
theorem Table.mem_ofList_text {ps : List String} {p : String} :
    p ∈ (Table.ofList ps).toList ↔ p ∈ ps := by
  have hid : ∀ qs : List String, qs.map key = qs := List.map_id
  have hkeys : (Table.ofList ps).keys = (Table.ofList ps).toList := hid _
  rw [← hkeys, ← contains_iff_mem_keys, contains_ofList, hid, List.contains_iff_mem]

namespace Diff

variable {τ : Type} [Item τ] {d : Diff τ} {sourceExt outputExt p k : String}

theorem mem_addedOrChangedKeys :
    k ∈ d.addedOrChangedKeys ↔ ∃ c, d.get? k = some c ∧ c.status ≠ .removed := by
  rw [addedOrChangedKeys, Table.mem_map_key_filter]
  simp only [decide_eq_true_eq]

/-- The outputs of a source with this stem: its own, and those whose name goes on after a dollar sign. -/
def IsOutputOf (outputExt stem p : String) : Prop :=
  p = stem ++ "." ++ Text.dropDots outputExt ∨ p = stem ++ "$*." ++ Text.dropDots outputExt

theorem mem_outputPatterns : p ∈ outputPatterns sourceExt outputExt k ↔
    ∃ stem, k = stem ++ "." ++ Text.dropDots sourceExt ∧ IsOutputOf outputExt stem p := by
  have hstem : ∀ stem, Text.stem? ("." ++ Text.dropDots sourceExt) k = some stem ↔
      k = stem ++ "." ++ Text.dropDots sourceExt := by
    intro stem
    rw [Text.stem?_eq_some_iff, String.append_assoc]
  unfold outputPatterns
  cases hk : Text.stem? ("." ++ Text.dropDots sourceExt) k with
  | none =>
    constructor
    · intro hp
      cases hp
    · rintro ⟨stem, heq, -⟩
      rw [(hstem stem).2 heq] at hk
      cases hk
  | some stem =>
    have hdollar : stem ++ "$*" ++ ("." ++ Text.dropDots outputExt) =
        stem ++ "$*." ++ Text.dropDots outputExt := by
      have hends : "$*" ++ "." = "$*." := rfl
      rw [← hends, ← String.append_assoc, ← String.append_assoc]
    simp only [List.mem_cons, List.not_mem_nil, or_false, hdollar, ← String.append_assoc]
    constructor
    · intro hp
      exact ⟨stem, (hstem stem).1 hk, hp⟩
    · rintro ⟨other, heq, hp⟩
      rw [(hstem other).2 heq] at hk
      obtain rfl := Option.some.inj hk
      exact hp

theorem mem_stalePatterns : p ∈ (d.stalePatterns sourceExt outputExt).toList ↔
    ∃ k ∈ d.addedOrChangedKeys, p ∈ outputPatterns sourceExt outputExt k := by
  rw [stalePatterns, Table.mem_ofList_text, List.mem_flatMap]

end Diff

end BuildDelta
