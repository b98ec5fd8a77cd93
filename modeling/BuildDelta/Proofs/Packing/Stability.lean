import BuildDelta.Proofs.Packing.Outcome
/-!
# Groups that stay

What comes later does not change a group that has been sealed, and what was sealed earlier does not
change the groups that follow. Both are properties of greedy cuts, not of the counter: the first group
of a greedy cut is the longest run from the start that fits (`GreedyCut.isPrefix_head`), so a sequence
has one greedy cut (`GreedyCut.unique`), and the cut of a longer sequence begins with the same groups
up to the last one (`GreedyCut.extended`). Packing makes the greedy cut and no other
(`pack_eq_ok_iff`).
-/

namespace BuildDelta.Packing

namespace GreedyCut

variable {υ : Type} {fits : List υ → Prop} {us vs g : List υ} {groups groups' : List (List υ)}

/-- A run from the start that fits lies within the first group. -/
theorem isPrefix_head {run : List υ} (hclosed : ∀ as bs : List υ, as <:+: bs → fits bs → fits as)
    (h : GreedyCut fits us (g :: groups)) (hrun : run <+: us) (hfits : fits run) : run <+: g := by
  have hg : g <+: us := ⟨groups.flatten, h.flatten_eq⟩
  have ⟨rest, hrest⟩ := hrun
  have hlead : [run, rest].flatten.drop 0 = us := by simpa using hrest
  have hlength : run.length ≤ 0 + g.length := h.length_run_le hclosed hlead hfits
  rw [Nat.zero_add] at hlength
  exact List.prefix_of_prefix_length_le hrun hg hlength

theorem eq_nil_of_nil (h : GreedyCut fits [] groups) : groups = [] := by
  cases groups with
  | nil => rfl
  | cons g groups =>
    have hg : g = [] := (List.append_eq_nil_iff.1 h.flatten_eq).1
    exact absurd hg (h.ne_nil g List.mem_cons_self)

theorem unique (hclosed : ∀ as bs : List υ, as <:+: bs → fits bs → fits as)
    (h : GreedyCut fits us groups) (h' : GreedyCut fits us groups') : groups = groups' := by
  induction groups generalizing us groups' with
  | nil =>
    rw [← h.flatten_eq] at h'
    exact h'.eq_nil_of_nil.symm
  | cons g groups ih =>
    cases groups' with
    | nil =>
      rw [← h'.flatten_eq] at h
      exact h.eq_nil_of_nil
    | cons g' groups' =>
      have hg : g <+: g' :=
        h'.isPrefix_head hclosed ⟨_, h.flatten_eq⟩ (h.fits_all g List.mem_cons_self)
      have hg' : g' <+: g :=
        h.isPrefix_head hclosed ⟨_, h'.flatten_eq⟩ (h'.fits_all g' List.mem_cons_self)
      obtain rfl : g = g' := hg.eq_of_length_le hg'.length_le
      have hrest : groups.flatten = groups'.flatten :=
        List.append_cancel_left (h.flatten_eq.trans h'.flatten_eq.symm)
      rw [ih h.tail (hrest ▸ h'.tail)]

theorem drop (h : GreedyCut fits us groups) (i : Nat) :
    GreedyCut fits (groups.drop i).flatten (groups.drop i) where
  flatten_eq := rfl
  ne_nil g hg := h.ne_nil g (List.mem_of_mem_drop hg)
  fits_all g hg := h.fits_all g (List.mem_of_mem_drop hg)
  saturated := h.saturated.drop i

/-- What takes more than one group does not fit as a whole. -/
theorem not_fits_whole {next : List υ} (hclosed : ∀ as bs : List υ, as <:+: bs → fits bs → fits as)
    (h : GreedyCut fits us (g :: next :: groups)) : ¬fits us := by
  intro hfits
  have hlen := (h.isPrefix_head hclosed List.prefix_rfl hfits).length_le
  have hnext := List.length_pos_iff.2 (h.ne_nil next (by simp))
  rw [← h.flatten_eq, List.flatten_cons, List.flatten_cons, List.length_append, List.length_append]
    at hlen
  omega

/-- If more is to come, no group changes but the last one, and that one can only grow. -/
theorem extended (hclosed : ∀ as bs : List υ, as <:+: bs → fits bs → fits as)
    (h : GreedyCut fits us groups) (h' : GreedyCut fits (us ++ vs) groups') :
    groups = [] ∨ ∃ kept last grown rest,
      groups = kept ++ [last] ∧ groups' = kept ++ grown :: rest ∧ last <+: grown := by
  induction groups generalizing us groups' with
  | nil => exact .inl rfl
  | cons g groups ih =>
    right
    have hus : us <+: us ++ vs := List.prefix_append us vs
    have hgus : g <+: us := ⟨groups.flatten, h.flatten_eq⟩
    cases groups' with
    | nil =>
      have hnil : us = [] := (List.append_eq_nil_iff.1 h'.flatten_eq.symm).1
      rw [hnil, List.prefix_nil] at hgus
      exact absurd hgus (h.ne_nil g List.mem_cons_self)
    | cons g' groups' =>
      have hg : g <+: g' :=
        h'.isPrefix_head hclosed (hgus.trans hus) (h.fits_all g List.mem_cons_self)
      cases groups with
      | nil => exact ⟨[], g, g', groups', rfl, rfl, hg⟩
      | cons next groups =>
        have hfits' : fits g' := h'.fits_all g' List.mem_cons_self
        -- A group that went past `us` would have to hold all of it.
        have hg' : g' <+: us := by
          refine (List.prefix_or_prefix_of_prefix ⟨_, h'.flatten_eq⟩ hus).resolve_right fun hlong => ?_
          exact h.not_fits_whole hclosed (hclosed us g' hlong.isInfix hfits')
        obtain rfl : g = g' := hg.eq_of_length_le (h.isPrefix_head hclosed hg' hfits').length_le
        have hrest : groups'.flatten = (next :: groups).flatten ++ vs := by
          have hall := h'.flatten_eq
          rw [← h.flatten_eq, List.flatten_cons, List.flatten_cons, List.append_assoc] at hall
          exact List.append_cancel_left hall
        obtain hnil | ⟨kept, last, grown, rest, heq, heq', hgrown⟩ :=
          ih h.tail (hrest ▸ h'.tail)
        · exact absurd hnil (List.cons_ne_nil _ _)
        · exact ⟨g :: kept, last, grown, rest, congrArg (g :: ·) heq, congrArg (g :: ·) heq', hgrown⟩

end GreedyCut

variable {υ : Type} [HasReferences υ] {capacity : Capacity} {s : ReferenceCounter υ} {us : List υ}

theorem fits_closed (capacity : Capacity) :
    ∀ as bs : List υ, as <:+: bs → Fits capacity bs → Fits capacity as :=
  fun _ _ hsub hfits => hfits.of_subset hsub.subset

theorem pack_eq_ok_iff (hs : s.Accounts capacity) (hempty : batch s = []) {groups : List (List υ)} :
    (pack s us).1 = .ok groups ↔ GreedyCut (Fits capacity) us groups := by
  constructor
  · intro hok
    have hsmall := (exists_pack_eq_ok_iff hs hempty).1 ⟨groups, hok⟩
    obtain ⟨made, hmade, hcut⟩ :=
      pack_greedyCut hs hempty fun u hu => fits_singleton_iff.2 (hsmall u hu)
    rw [hok] at hmade
    obtain rfl := Except.ok.inj hmade
    exact hcut
  · intro hcut
    have hfit : ∀ u ∈ us, Fits capacity [u] := by
      intro u hu
      rw [← hcut.flatten_eq] at hu
      obtain ⟨g, hg, hug⟩ := List.mem_flatten.1 hu
      exact (hcut.fits_all g hg).of_subset (by simpa using hug)
    obtain ⟨made, hmade, hmadeCut⟩ := pack_greedyCut hs hempty hfit
    rw [hmade, hmadeCut.unique (fits_closed capacity) hcut]

/-- Groups depend on nothing but their own units and the one that comes next. If units can be packed,
so can those of them that come first, and into the same groups, only that the last one may be cut off;
and what is left after any number of groups is packed into the groups that are left. -/
theorem sealed_groups_stay (capacity : Capacity) (us vs : List υ) (groups' : List (List υ))
    (hpack : (pack (.new capacity : ReferenceCounter υ) (us ++ vs)).1 = .ok groups') :
    (∃ groups, (pack (.new capacity : ReferenceCounter υ) us).1 = .ok groups ∧
      (groups = [] ∨ ∃ kept last grown rest,
        groups = kept ++ [last] ∧ groups' = kept ++ grown :: rest ∧ last <+: grown)) ∧
    ∀ i, (pack (.new capacity : ReferenceCounter υ)
      ((us ++ vs).drop (groups'.take i).flatten.length)).1 = .ok (groups'.drop i) := by
  have hnew : ReferenceCounter.Accounts capacity (.new capacity : ReferenceCounter υ) :=
    ReferenceCounter.accounts_new capacity
  have hcut' : GreedyCut (Fits capacity) (us ++ vs) groups' := (pack_eq_ok_iff hnew rfl).1 hpack
  constructor
  · have hsmall := (exists_pack_eq_ok_iff hnew rfl).1 ⟨groups', hpack⟩
    obtain ⟨groups, hgroups⟩ : ∃ groups, (pack (.new capacity : ReferenceCounter υ) us).1 = .ok groups :=
      (exists_pack_eq_ok_iff hnew rfl).2 fun u hu => hsmall u (List.mem_append_left vs hu)
    have hcut : GreedyCut (Fits capacity) us groups := (pack_eq_ok_iff hnew rfl).1 hgroups
    exact ⟨groups, hgroups, hcut.extended (fits_closed capacity) hcut'⟩
  · intro i
    have hleft : (us ++ vs).drop (groups'.take i).flatten.length = (groups'.drop i).flatten := by
      conv_lhs => rw [← hcut'.flatten_eq, ← List.take_append_drop i groups', List.flatten_append]
      rw [List.take_append_drop, List.drop_left]
    rw [hleft]
    exact (pack_eq_ok_iff hnew rfl).2 (hcut'.drop i)

private def namingFields (name : String) (fields : List String) : CompilationUnit :=
  ⟨name, fields.map fun field => ⟨"LA;", field, "I"⟩, []⟩

/-- Two fields to a group: the second group goes on with what comes later, and the first stays. -/
theorem sealed_groups_stay_overlapping :
    let a := namingFields "a" ["x", "y"]
    let b := namingFields "b" ["y", "z"]
    let c := namingFields "c" ["z"]
    let d := namingFields "d" ["y"]
    let e := namingFields "e" ["w"]
    let packed := fun us => (pack (.new ⟨2, 0⟩ : ReferenceCounter CompilationUnit) us).1
    packed ([a, b, c] ++ [d, e]) = .ok [[a], [b, c, d], [e]] ∧
      (∃ groups, packed [a, b, c] = .ok groups ∧ groups.dropLast <+: [[a], [b, c, d], [e]]) ∧
      packed [b, c, d, e] = .ok [[b, c, d], [e]] := by
  intro a b c d e packed
  have hpack : packed ([a, b, c] ++ [d, e]) = .ok [[a], [b, c, d], [e]] := by
    refine (pack_eq_ok_iff (ReferenceCounter.accounts_new _) rfl).2 ⟨rfl, ?_, ?_, ?_⟩
    · decide
    · simp only [fits_iff_card]
      decide
    · simp only [fits_iff_card]
      decide
  obtain ⟨⟨groups, hgroups, hkept⟩, hrest⟩ := sealed_groups_stay ⟨2, 0⟩ [a, b, c] [d, e] _ hpack
  refine ⟨hpack, ⟨groups, hgroups, ?_⟩, hrest 1⟩
  obtain rfl | ⟨kept, last, grown, rest, rfl, heq, -⟩ := hkept
  · exact List.nil_prefix
  · rw [List.dropLast_concat, heq]
    exact List.prefix_append _ _

end BuildDelta.Packing
