import BuildDelta.Proofs.Except
import BuildDelta.Proofs.Snapshot.Grammar
import BuildDelta.SourceSet.Scan
/-!
# What a scan of source directories puts together

A scan of several directories has two steps: it looks at one directory after the other, and puts together
what it has found (`SourceSet.scan_eq`). What comes of the second one holds each name with what was found
under it, in whatever order this was (`SourceSet.assemble_eq_ok_iff`).
-/

namespace BuildDelta

namespace Snapshot

theorem ofNames_eq_ok_iff {root : String} {names : List String} {s : Snapshot KeyItem} :
    ofNames root names = .ok s ↔ s.root = root ∧ names.Nodup ∧ names.Perm s.items.keys := by
  have hkeys : (names.map KeyItem.mk).map key = names := by
    rw [List.map_map]
    exact List.map_id names
  have hmk : s.items.keys.map KeyItem.mk = s.items.toList := by
    rw [Table.keys, List.map_map]
    exact List.map_id s.items.toList
  have hperm : (names.map KeyItem.mk).Perm s.items.toList ↔ names.Perm s.items.keys := by
    rw [← List.map_perm_map_iff (f := KeyItem.mk) fun _ _ => KeyItem.mk.inj, hmk]
  rw [ofNames, ofItems_eq_ok_iff, hkeys, hperm]

end Snapshot

namespace SourceSet

section Assembling

variable {τ : Type} [Item τ] {root : Path} {sets sets' : List (String × Snapshot τ)} {s t : SourceSet τ}

/-- Puts together what was found under each name. -/
def assemble (root : Path) (sets : List (String × Snapshot τ)) : Except ScanError (SourceSet τ) := do
  let names ← (Snapshot.ofNames root.text (sets.map Prod.fst)).mapError .duplicateKey
  pure ⟨root.text, names, .ofList sets⟩

theorem assemble_eq_ok_iff : assemble root sets = .ok s ↔
    s.projectRoot = root.text ∧ s.directories.root = root.text ∧
      (sets.map Prod.fst).Perm s.directories.items.keys ∧ sets.Perm s.sets.toList := by
  constructor
  · intro h
    obtain ⟨names, hnames, h⟩ := bind_eq_ok.1 h
    cases h
    obtain ⟨hroot, hnodup, hperm⟩ := Snapshot.ofNames_eq_ok_iff.1 (mapError_eq_ok.1 hnames)
    exact ⟨rfl, hroot, hperm, Table.perm_ofList_iff.2 hnodup⟩
  · rintro ⟨hproject, hroot, hperm, hsets⟩
    have hnodup : (sets.map key).Nodup := (hsets.map key).nodup_iff.2 s.sets.nodup_keys
    have hnames := Snapshot.ofNames_eq_ok_iff.2 ⟨hroot, hnodup, hperm⟩
    have htable : Table.ofList sets = s.sets := by
      apply Table.ext_mem
      intro p
      rw [← (Table.perm_ofList_iff.2 hnodup).mem_iff, hsets.mem_iff]
    refine bind_eq_ok.2 ⟨s.directories, mapError_eq_ok.2 hnames, ?_⟩
    rw [← hproject, htable]
    rfl

theorem assemble_of_perm (h : sets.Perm sets') (hs : assemble root sets = .ok s) :
    assemble root sets' = .ok s := by
  rw [assemble_eq_ok_iff] at hs ⊢
  obtain ⟨hproject, hroot, hnames, hsets⟩ := hs
  exact ⟨hproject, hroot, (h.map Prod.fst).symm.trans hnames, h.symm.trans hsets⟩

theorem eq_iff_of_assemble {root' : Path} (hs : assemble root sets = .ok s)
    (ht : assemble root' sets' = .ok t) : s = t ↔ root.text = root'.text ∧ sets.Perm sets' := by
  constructor
  · rintro rfl
    rw [assemble_eq_ok_iff] at hs ht
    exact ⟨hs.1.symm.trans ht.1, hs.2.2.2.trans ht.2.2.2.symm⟩
  · rintro ⟨hroot, hperm⟩
    have hs' := assemble_of_perm hperm hs
    -- of the root only its text is kept
    unfold assemble at hs' ht
    rw [hroot, ht] at hs'
    exact (Except.ok.inj hs').symm

end Assembling

variable {τ : Type} [Scannable τ] {fs : FileSystem} {root : Path} {directories : List Path}
  {filter : Filter} {options : ScanOptions}

/-- A scan puts together what it finds in each directory. -/
theorem scan_eq : scan fs root directories filter options =
    directories.mapM (scanDirectory fs root filter options) >>= assemble (τ := τ) root := rfl

end SourceSet

end BuildDelta
