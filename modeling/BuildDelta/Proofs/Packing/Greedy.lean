import BuildDelta.Proofs.Packing.History
import Mathlib.Data.List.Chain
/-!
# Packing is as good as packing can be

Packing cuts a sequence of units into groups. Each group it makes fits, and none could have taken the
first unit of the next one (`GreedyCut`, `pack_greedyCut`). That alone keeps it ahead of every other
cut into fitting runs: after equally many groups it has never covered fewer units
(`GreedyCut.length_take_le`), because a run that got further than a greedy group would contain that
group together with the unit that did not fit.
-/

namespace BuildDelta.Packing

variable {υ : Type}

/-- The units cut into groups that fit, none of which could have taken one more unit. -/
structure GreedyCut (fits : List υ → Prop) (us : List υ) (groups : List (List υ)) : Prop where
  flatten_eq : groups.flatten = us
  ne_nil : ∀ g ∈ groups, g ≠ []
  fits_all : ∀ g ∈ groups, fits g
  saturated : groups.IsChain fun g next => ∀ u ∈ next.head?, ¬fits (g ++ [u])

namespace GreedyCut

variable {fits : List υ → Prop} {us : List υ} {groups : List (List υ)}

theorem nil : GreedyCut fits [] [] :=
  ⟨rfl, by simp, by simp, .nil⟩

theorem singleton {g : List υ} (hne : g ≠ []) (hfits : fits g) : GreedyCut fits g [g] :=
  ⟨by simp, by simpa, by simpa, .singleton g⟩

/-- The first group starts with the first unit. -/
theorem head_head? (h : GreedyCut fits us groups) :
    ∀ next ∈ groups.head?, next.head? = us.head? := by
  rw [← h.flatten_eq]
  exact head?_of_mem_head? h.ne_nil

theorem cons {g : List υ} (hne : g ≠ []) (hfits : fits g)
    (hstop : ∀ u ∈ us.head?, ¬fits (g ++ [u])) (h : GreedyCut fits us groups) :
    GreedyCut fits (g ++ us) (g :: groups) where
  flatten_eq := by rw [List.flatten_cons, h.flatten_eq]
  ne_nil := List.forall_mem_cons.2 ⟨hne, h.ne_nil⟩
  fits_all := List.forall_mem_cons.2 ⟨hfits, h.fits_all⟩
  saturated := by
    refine List.isChain_cons.2 ⟨fun next hnext u hu => ?_, h.saturated⟩
    rw [h.head_head? next hnext] at hu
    exact hstop u hu

theorem tail {g : List υ} (h : GreedyCut fits us (g :: groups)) :
    GreedyCut fits groups.flatten groups where
  flatten_eq := rfl
  ne_nil := fun g' hg' => h.ne_nil g' (List.mem_cons_of_mem _ hg')
  fits_all := fun g' hg' => h.fits_all g' (List.mem_cons_of_mem _ hg')
  saturated := h.saturated.of_cons

/-- A group does not fit any more with the unit that comes next. -/
theorem not_fits_next {g : List υ} (h : GreedyCut fits us (g :: groups)) {u : υ}
    (hu : u ∈ groups.flatten.head?) : ¬fits (g ++ [u]) := by
  cases groups with
  | nil => simp at hu
  | cons next rest =>
    have hhead : next.head? = (next :: rest).flatten.head? := h.tail.head_head? next rfl
    exact (List.isChain_cons_cons.1 h.saturated).1 u (hhead ▸ hu)

/-- A run of another cut that starts before a greedy group does not end after it. The greedy cut is
`k` units ahead here. -/
theorem length_run_le {g r : List υ} {rs : List (List υ)} {k : Nat}
    (hclosed : ∀ as bs : List υ, as <:+: bs → fits bs → fits as)
    (h : GreedyCut fits us (g :: groups)) (hlead : (r :: rs).flatten.drop k = us) (hr : fits r) :
    r.length ≤ k + g.length := by
  apply Nat.le_of_not_lt
  intro hlt
  have heq : r.drop k ++ rs.flatten = g ++ groups.flatten := by
    rw [← List.flatten_cons (l := g), h.flatten_eq, ← hlead, List.flatten_cons,
      List.drop_append_of_le_length (by omega)]
  have hlen : g.length < (r.drop k).length := by
    rw [List.length_drop]
    omega
  obtain ⟨t, hg, -⟩ | ⟨t, hrun, hnext⟩ := List.append_eq_append_iff.1 heq
  · rw [hg, List.length_append] at hlen
    omega
  · rw [hrun, List.length_append] at hlen
    obtain ⟨u, t', rfl⟩ := List.exists_cons_of_length_pos (l := t) (by omega)
    -- The run goes on with the unit that did not fit into the group.
    have hsub : g ++ [u] <:+: r := by
      refine ⟨r.take k, t', ?_⟩
      rw [List.append_assoc, List.append_assoc, List.singleton_append, ← hrun, List.take_append_drop]
    exact h.not_fits_next (by rw [hnext]; rfl) (hclosed _ _ hsub hr)

/-- A greedy cut that is ahead stays ahead. -/
theorem length_take_le_add {cut : List (List υ)} {k : Nat}
    (hclosed : ∀ as bs : List υ, as <:+: bs → fits bs → fits as) (h : GreedyCut fits us groups)
    (hcut : ∀ r ∈ cut, fits r) (hlead : cut.flatten.drop k = us) (j : Nat) :
    (cut.take j).flatten.length ≤ k + (groups.take j).flatten.length := by
  induction j generalizing us groups cut k with
  | zero => simp
  | succ j ih =>
    match cut, groups with
    | [], _ => simp
    | r :: rs, [] =>
      have hdone : (r :: rs).flatten.length ≤ k := by
        rw [← List.drop_eq_nil_iff, hlead, ← h.flatten_eq]
        rfl
      have hsub : ((r :: rs).take (j + 1)).flatten.length ≤ (r :: rs).flatten.length := by
        conv_rhs => rw [← List.take_append_drop (j + 1) (r :: rs), List.flatten_append]
        rw [List.length_append]
        omega
      omega
    | r :: rs, g :: gs =>
      have hr := length_run_le hclosed h hlead (hcut r (by simp))
      have hlead' : rs.flatten.drop (k + g.length - r.length) = gs.flatten := by
        have hdrop := congrArg (List.drop g.length) (hlead.trans h.flatten_eq.symm)
        rwa [List.drop_drop, List.flatten_cons, List.flatten_cons, List.drop_left,
          List.drop_append, List.drop_of_length_le hr, List.nil_append] at hdrop
      have hrest := ih h.tail (fun r' hr' => hcut r' (List.mem_cons_of_mem _ hr')) hlead'
      simp only [List.take_succ_cons, List.flatten_cons, List.length_append]
      omega

theorem length_take_le {cut : List (List υ)}
    (hclosed : ∀ as bs : List υ, as <:+: bs → fits bs → fits as) (h : GreedyCut fits us groups)
    (hflatten : cut.flatten = us) (hcut : ∀ r ∈ cut, fits r) (j : Nat) :
    (cut.take j).flatten.length ≤ (groups.take j).flatten.length := by
  simpa using h.length_take_le_add hclosed hcut (k := 0) hflatten j

/-- There is no cut into fewer runs. -/
theorem length_le {cut : List (List υ)}
    (hclosed : ∀ as bs : List υ, as <:+: bs → fits bs → fits as) (h : GreedyCut fits us groups)
    (hflatten : cut.flatten = us) (hcut : ∀ r ∈ cut, fits r) : groups.length ≤ cut.length := by
  apply Nat.le_of_not_lt
  intro hlt
  have hcover := h.length_take_le hclosed hflatten hcut cut.length
  have hsplit := congrArg List.length (congrArg List.flatten (List.take_append_drop cut.length groups))
  rw [List.flatten_append, List.length_append, h.flatten_eq] at hsplit
  rw [List.take_length, hflatten] at hcover
  -- The groups past the end of the other cut would have to be empty.
  obtain ⟨g, rest, hdrop⟩ := List.exists_cons_of_length_pos (l := groups.drop cut.length) (by
    rw [List.length_drop]
    omega)
  have hg : g ≠ [] := h.ne_nil g (List.mem_of_mem_drop (hdrop ▸ List.mem_cons_self))
  rw [hdrop, List.flatten_cons, List.length_append] at hsplit
  have hpos := List.length_pos_iff.2 hg
  omega

end GreedyCut

variable [HasReferences υ]

/-- Packing into a counter that accounts for its open group, when each unit fits into a group of its
own, makes a greedy cut of the open group and the units to come. -/
theorem Drives.greedyCut {capacity : Capacity} {i : Nat} {s s' : ReferenceCounter υ} {us : List υ}
    {r : Except PackError (List (List υ))} (h : Drives i s us r s') (hs : s.Accounts capacity)
    (hfit : ∀ u ∈ us, Fits capacity [u]) :
    ∃ groups, r = .ok groups ∧ GreedyCut (Fits capacity) (batch s ++ us) groups := by
  induction h with
  | done hempty => exact ⟨[], rfl, by rw [hempty]; exact .nil⟩
  | flush hopen => exact ⟨_, rfl, by rw [List.append_nil]; exact .singleton hopen hs.fits⟩
  | accept haccepted _ ih =>
    obtain ⟨groups, hr, hcut⟩ :=
      ih (hs.tryAdd _) (fun v hv => hfit v (List.mem_cons_of_mem _ hv))
    rw [batch_of_accepted _ _ haccepted, List.append_assoc] at hcut
    exact ⟨groups, hr, hcut⟩
  | @renew _ s _ u _ _ hrefused hopen haccepted _ ih =>
    have hfresh := hs.startNewGroup
    obtain ⟨groups, rfl, hcut⟩ :=
      ih (hfresh.tryAdd u) (fun v hv => hfit v (List.mem_cons_of_mem _ hv))
    rw [batch_of_accepted _ _ haccepted, batch_startNewGroup] at hcut
    refine ⟨batch s :: groups, rfl, hcut.cons hopen hs.fits fun v hv hfits => ?_⟩
    obtain rfl : u = v := by simpa using hv
    rw [(hs.accepts_iff u).2 hfits] at hrefused
    exact Bool.noConfusion hrefused
  | @giveUp _ s u _ hrefused hempty =>
    have haccepted := (hs.accepts_iff u).2 (by
      rw [hempty]
      exact hfit u List.mem_cons_self)
    rw [hrefused] at haccepted
    exact Bool.noConfusion haccepted
  | @giveUpAgain _ s u _ _ _ hagain =>
    have hfresh := hs.startNewGroup
    have haccepted := (hfresh.accepts_iff u).2 (by
      rw [batch_startNewGroup]
      exact hfit u List.mem_cons_self)
    rw [hagain] at haccepted
    exact Bool.noConfusion haccepted

theorem pack_greedyCut {capacity : Capacity} {s : ReferenceCounter υ} (hs : s.Accounts capacity)
    (hempty : batch s = []) {us : List υ} (hfit : ∀ u ∈ us, Fits capacity [u]) :
    ∃ groups, (pack s us).1 = .ok groups ∧ GreedyCut (Fits capacity) us groups := by
  obtain ⟨groups, hr, hcut⟩ := (drives_packFrom 0 s us).greedyCut hs hfit
  rw [hempty, List.nil_append] at hcut
  exact ⟨groups, by rw [pack_of_empty hempty, hr], hcut⟩

/-- Packing succeeds if no unit is too large by itself. Its groups are the units in their order, none
is empty and all fit; and whatever other cut into fitting runs one takes, after equally many groups
packing has covered at least as many units, so it never takes more groups. -/
theorem pack_optimal (capacity : Capacity) (s : ReferenceCounter υ) (us : List υ)
    (hreachable : s.Reachable capacity) (hempty : batch s = []) (hfit : ∀ u ∈ us, Fits capacity [u]) :
    ∃ groups, (pack s us).1 = .ok groups ∧ groups.flatten = us ∧ (∀ g ∈ groups, g ≠ []) ∧
      (∀ g ∈ groups, Fits capacity g) ∧
      ∀ cut : List (List υ), cut.flatten = us → (∀ r ∈ cut, r ≠ []) → (∀ r ∈ cut, Fits capacity r) →
        (∀ j, (cut.take j).flatten.length ≤ (groups.take j).flatten.length) ∧
          groups.length ≤ cut.length := by
  obtain ⟨groups, hpack, hgreedy⟩ := pack_greedyCut hreachable.accounts hempty hfit
  have hclosed : ∀ as bs : List υ, as <:+: bs → Fits capacity bs → Fits capacity as :=
    fun _ _ hsub hfits => hfits.of_subset hsub.subset
  refine ⟨groups, hpack, hgreedy.flatten_eq, hgreedy.ne_nil, hgreedy.fits_all, ?_⟩
  intro cut hflatten _ hcut
  exact ⟨hgreedy.length_take_le hclosed hflatten hcut, hgreedy.length_le hclosed hflatten hcut⟩

private def mainField (name : String) : FieldRef := ⟨"LMain;", name, "I"⟩

/-- Three units, of which the first two and the last two share a field. -/
private def chained : List CompilationUnit :=
  [⟨"a", [mainField "x", mainField "y"], []⟩, ⟨"b", [mainField "y", mainField "z"], []⟩,
    ⟨"c", [mainField "z"], []⟩]

/-- Two fields to a group: the last two units fit together, so packing needs no third group. -/
theorem pack_optimal_chained :
    let s : ReferenceCounter CompilationUnit := .new ⟨2, 0⟩
    s.Reachable ⟨2, 0⟩ ∧ batch s = [] ∧ (∀ u ∈ chained, Fits ⟨2, 0⟩ [u]) ∧
      ∃ groups, (pack s chained).1 = .ok groups ∧ groups.flatten = chained ∧ groups.length ≤ 2 := by
  intro s
  have hreachable : s.Reachable ⟨2, 0⟩ := ⟨[], rfl⟩
  have hfit : ∀ u ∈ chained, Fits ⟨2, 0⟩ [u] := by
    intro u hu
    simp only [chained, List.mem_cons, List.not_mem_nil, or_false] at hu
    rcases hu with rfl | rfl | rfl <;>
      exact ⟨Nat.le_trans (distinct_le_length _) (by decide), Nat.zero_le _⟩
  have hpair : Fits ⟨2, 0⟩ (chained.drop 1) := by
    have hsub : fieldsOf (chained.drop 1) ⊆ [mainField "y", mainField "z"] := by
      simp [chained, fieldsOf, HasReferences.fields]
    exact ⟨Nat.le_trans (distinct_le_of_subset hsub) (distinct_le_length _), Nat.zero_le _⟩
  obtain ⟨groups, hpack, hflatten, -, -, hbest⟩ :=
    pack_optimal ⟨2, 0⟩ s chained hreachable rfl hfit
  refine ⟨hreachable, rfl, hfit, groups, hpack, hflatten, ?_⟩
  refine (hbest [chained.take 1, chained.drop 1] rfl ?_ ?_).2
  · simp [chained]
  · intro r hr
    rcases List.mem_pair.1 hr with rfl | rfl
    · exact hfit _ (by simp [chained])
    · exact hpair

end BuildDelta.Packing
