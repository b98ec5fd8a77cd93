import BuildDelta.Packing.Pack
/-!
# What packing does to a packer

Packing is a loop around any packer that keeps a few promises (`LawfulPacker`). `Drives` lists
everything that the loop can do with the units to come, one rule for each way on; `drives_packFrom`
says that it does nothing else. What holds of all packings is proved by induction on these rules, so
that nothing else has to look at how the loop is written.
-/

namespace BuildDelta.Packing

/-- What a packer promises to whoever drives it. A refusal leaves no trace, and sealing is no more
than taking the open group and starting a new one. -/
class LawfulPacker (σ : Type) (υ : outParam Type) [Packer σ υ] : Prop where
  batch_of_accepted : ∀ (s : σ) (u : υ), (tryAdd s u).1 = true → batch (tryAdd s u).2 = batch s ++ [u]
  state_of_refused : ∀ (s : σ) (u : υ), (tryAdd s u).1 = false → (tryAdd s u).2 = s
  batch_startNewGroup : ∀ s : σ, batch (startNewGroup s) = []
  sealGroup_eq : ∀ s : σ, sealGroup s = (batch s, startNewGroup s)

export LawfulPacker (batch_of_accepted state_of_refused batch_startNewGroup sealGroup_eq)

variable {σ υ : Type} [Packer σ υ] [HasReferences υ]

omit [Packer σ υ] [HasReferences υ] in
/-- Groups that are not empty begin with the first unit of all. -/
theorem head?_of_mem_head? {groups : List (List υ)} (hne : ∀ g ∈ groups, g ≠ []) :
    ∀ next ∈ groups.head?, next.head? = groups.flatten.head? := by
  intro next hnext
  obtain ⟨rest, rfl⟩ := List.head?_eq_some_iff.1 hnext
  obtain ⟨u, next', rfl⟩ := List.exists_cons_of_ne_nil (hne next (by simp))
  rfl

/-- The error for a unit that not even an empty group takes. -/
def tooLarge (index : Nat) (u : υ) : PackError :=
  .unitTooLarge index (distinct (HasReferences.fields u)) (distinct (HasReferences.methods u))

/-- The ways on from a state when units from place `i` on are still to come: `Drives i s us r s'` if
packing them ends with the result `r` in the state `s'`. -/
inductive Drives : Nat → σ → List υ → Except PackError (List (List υ)) → σ → Prop where
  | done {i : Nat} {s : σ} (hempty : batch s = []) : Drives i s [] (.ok []) s
  | flush {i : Nat} {s : σ} (hopen : batch s ≠ []) : Drives i s [] (.ok [batch s]) (startNewGroup s)
  | accept {i : Nat} {s s' : σ} {u : υ} {us : List υ} {r : Except PackError (List (List υ))}
      (haccepted : (tryAdd s u).1 = true) (hrest : Drives (i + 1) (tryAdd s u).2 us r s') :
      Drives i s (u :: us) r s'
  | renew {i : Nat} {s s' : σ} {u : υ} {us : List υ} {r : Except PackError (List (List υ))}
      (hrefused : (tryAdd s u).1 = false) (hopen : batch s ≠ [])
      (haccepted : (tryAdd (startNewGroup s) u).1 = true)
      (hrest : Drives (i + 1) (tryAdd (startNewGroup s) u).2 us r s') :
      Drives i s (u :: us) (r.map (batch s :: ·)) s'
  | giveUp {i : Nat} {s : σ} {u : υ} {us : List υ}
      (hrefused : (tryAdd s u).1 = false) (hempty : batch s = []) :
      Drives i s (u :: us) (.error (tooLarge i u)) (startNewGroup s)
  | giveUpAgain {i : Nat} {s : σ} {u : υ} {us : List υ}
      (hrefused : (tryAdd s u).1 = false) (hopen : batch s ≠ [])
      (hagain : (tryAdd (startNewGroup s) u).1 = false) :
      Drives i s (u :: us) (.error (tooLarge i u)) (startNewGroup (startNewGroup s))

theorem drives_packFrom [LawfulPacker σ υ] (i : Nat) (s : σ) (us : List υ) :
    Drives i s us (packFrom i s us).1 (packFrom i s us).2 := by
  fun_induction packFrom i s us with
  | case1 i s hempty => exact .done (List.isEmpty_iff.1 hempty)
  | case2 i s hopen group s' hseal =>
    obtain ⟨rfl, rfl⟩ := Prod.mk.inj ((sealGroup_eq s).symm.trans hseal)
    exact .flush (mt List.isEmpty_iff.2 hopen)
  | case3 i s u us s' hadd ih =>
    have haccepted : (tryAdd s u).1 = true := by rw [hadd]
    exact .accept haccepted (by rwa [hadd])
  | case4 i s u us error s' hadd hempty =>
    have hrefused : (tryAdd s u).1 = false := by rw [hadd]
    obtain rfl : s = s' := by rw [← state_of_refused s u hrefused, hadd]
    exact .giveUp hrefused (List.isEmpty_iff.1 hempty)
  | case5 i s u us s' hadd hopen group fresh hseal s'' hagain groups last hrest ih =>
    have hrefused : (tryAdd s u).1 = false := by rw [hadd]
    obtain rfl : s = s' := by rw [← state_of_refused s u hrefused, hadd]
    obtain ⟨rfl, rfl⟩ := Prod.mk.inj ((sealGroup_eq s).symm.trans hseal)
    rw [hrest] at ih
    exact .renew hrefused (mt List.isEmpty_iff.2 hopen) (by rw [hagain]) (by rwa [hagain])
  | case6 i s u us error s' hadd hopen group fresh hseal s'' hagain =>
    have hrefused : (tryAdd s u).1 = false := by rw [hadd]
    obtain rfl : s = s' := by rw [← state_of_refused s u hrefused, hadd]
    obtain ⟨rfl, rfl⟩ := Prod.mk.inj ((sealGroup_eq s).symm.trans hseal)
    have hrefused' : (tryAdd (startNewGroup s) u).1 = false := by rw [hagain]
    obtain rfl : startNewGroup s = s'' := by rw [← state_of_refused _ u hrefused', hagain]
    exact .giveUpAgain hrefused (mt List.isEmpty_iff.2 hopen) hrefused'

theorem pack_of_empty {s : σ} (hempty : batch s = []) (us : List υ) : pack s us = packFrom 0 s us := by
  rw [pack, if_pos (List.isEmpty_iff.2 hempty)]

theorem pack_of_open {s : σ} (hopen : batch s ≠ []) (us : List υ) :
    pack s us = (.error (.groupNotEmpty (batch s).length), s) := by
  rw [pack, if_neg (mt List.isEmpty_iff.1 hopen)]

/-- What offering a unit and starting a group preserve is preserved by packing. -/
theorem Drives.preserves {P : σ → Prop} (hadd : ∀ s u, P s → P (tryAdd s u).2)
    (hnew : ∀ s, P s → P (startNewGroup s)) {i : Nat} {s s' : σ} {us : List υ}
    {r : Except PackError (List (List υ))} (h : Drives i s us r s') (hs : P s) : P s' := by
  induction h with
  | done => exact hs
  | flush => exact hnew _ hs
  | accept _ _ ih => exact ih (hadd _ _ hs)
  | renew _ _ _ _ ih => exact ih (hadd _ _ (hnew _ hs))
  | giveUp => exact hnew _ hs
  | giveUpAgain => exact hnew _ (hnew _ hs)

theorem pack_preserves [LawfulPacker σ υ] {P : σ → Prop} (hadd : ∀ s u, P s → P (tryAdd s u).2)
    (hnew : ∀ s, P s → P (startNewGroup s)) {s : σ} (hs : P s) (us : List υ) : P (pack s us).2 := by
  by_cases hempty : batch s = []
  · rw [pack_of_empty hempty]
    exact (drives_packFrom 0 s us).preserves hadd hnew hs
  · rw [pack_of_open hempty]
    exact hs

end BuildDelta.Packing
