import BuildDelta.Proofs.SourceSet.Assembling
import BuildDelta.Proofs.SourceSet.Diff
import BuildDelta.Proofs.SourceSet.RoundTrip
import BuildDelta.Proofs.Table.Building
import Mathlib.Data.Set.Card
/-!
# What the difference of two source sets says

Between coherent source sets a difference holds exactly the keys that are not the same on both sides,
each in its directory, and their number is the number of changes it reports
(`SourceSet.DiffExact`). Scanned sets are coherent (`SourceSet.coherent_of_scan`), and stay so when they
are kept as states; both together are `sourceSetDiff_exact`.
-/

namespace BuildDelta

theorem Table.isEmpty_iff_get? {α : Type} [Keyed α] {t : Table α} :
    t.isEmpty = true ↔ ∀ k, t.get? k = none := by
  rw [isEmpty, List.isEmpty_iff]
  constructor
  · intro hnil k
    rw [get?, hnil]
    rfl
  · intro hnone
    refine List.eq_nil_iff_forall_not_mem.2 fun a ha => ?_
    exact get?_eq_none_iff.1 (hnone (key a)) a ha rfl

namespace SourceSetDiff

variable {τ : Type} [Item τ] {d : SourceSetDiff τ}

/-- What is said about a key in one of the directories. -/
def change? (d : SourceSetDiff τ) (directory k : String) : Option (Change τ) :=
  (d.filesIn directory).bind (·.get? k)

/-- All that have changed, each by its directory and its key. -/
def changed (d : SourceSetDiff τ) : List (String × String) :=
  d.files.toList.flatMap fun p => p.2.toList.map fun c => (p.1, key c)

theorem mem_changed {p : String × String} : p ∈ d.changed ↔ (d.change? p.1 p.2).isSome := by
  obtain ⟨directory, k⟩ := p
  simp only [changed, List.mem_flatMap, List.mem_map, Prod.mk.injEq, change?, filesIn,
    Option.isSome_iff_exists, Option.bind_eq_some_iff, Option.map_eq_some_iff,
    Table.get?_eq_some_iff]
  constructor
  · rintro ⟨p, hp, c, hc, rfl, rfl⟩
    exact ⟨c, p.2, ⟨p, ⟨hp, rfl⟩, rfl⟩, hc, rfl⟩
  · rintro ⟨c, _, ⟨p, ⟨hp, rfl⟩, rfl⟩, hc, rfl⟩
    exact ⟨p, hp, c, hc, rfl, rfl⟩

theorem nodup_changed (d : SourceSetDiff τ) : d.changed.Nodup := by
  refine List.nodup_flatMap.2 ⟨fun p _ => ?_, d.files.keys_differ.imp ?_⟩
  · refine List.pairwise_map.2 (p.2.keys_differ.imp ?_)
    intro a b hne heq
    exact hne (congrArg Prod.snd heq)
  · intro p q hne pair hp hq
    obtain ⟨_, -, rfl⟩ := List.mem_map.1 hp
    obtain ⟨_, -, heq⟩ := List.mem_map.1 hq
    exact hne (congrArg Prod.fst heq).symm

theorem length_changed (d : SourceSetDiff τ) : d.changed.length = d.fileChangeCount := by
  -- the sum runs from the left, so the induction needs it from any count on
  have hsum : ∀ (ps : List (String × Diff τ)) (n : Nat),
      ps.foldl (fun n p => n + p.2.size) n =
        n + (ps.flatMap fun p => p.2.toList.map fun c => (p.1, key c)).length := by
    intro ps
    induction ps with
    | nil => exact fun n => rfl
    | cons p ps ih =>
      intro n
      rw [List.foldl_cons, ih, List.flatMap_cons, List.length_append, List.length_map, Table.size,
        Nat.add_assoc]
  exact ((hsum d.files.toList 0).trans (Nat.zero_add _)).symm

theorem encard_changed (d : SourceSetDiff τ) :
    {p : String × String | (d.change? p.1 p.2).isSome}.encard = d.fileChangeCount := by
  have hset : {p : String × String | (d.change? p.1 p.2).isSome} = (d.changed.toFinset : Set _) := by
    ext p
    rw [Finset.mem_coe, List.mem_toFinset]
    exact mem_changed.symm
  rw [hset, Set.encard_coe_eq_coe_finsetCard, List.toFinset_card_of_nodup d.nodup_changed,
    d.length_changed]

theorem files_isEmpty_iff (h : ∀ directory changes, d.filesIn directory = some changes →
    changes.isEmpty = false) :
    d.files.isEmpty = true ↔ ∀ directory k, d.change? directory k = none := by
  rw [Table.isEmpty_iff_get?]
  constructor
  · intro hnone directory k
    rw [change?, filesIn, hnone]
    rfl
  · intro hnone directory
    rw [← Option.map_eq_none_iff (f := Prod.snd)]
    cases hfiles : d.filesIn directory with
    | none => exact hfiles
    | some changes =>
      have hempty : changes.isEmpty = true := by
        refine Table.isEmpty_iff_get?.2 fun k => ?_
        have hkey := hnone directory k
        rwa [change?, hfiles] at hkey
      rw [h directory changes hfiles] at hempty
      cases hempty

end SourceSetDiff

namespace SourceSet

variable {τ : Type} [Item τ] {current previous : SourceSet τ}

theorem change?_diff (hcurrent : current.Coherent) (hprevious : previous.Coherent) (d k : String) :
    (current.diff previous).change? d k =
      Change.between? (current.item? d k) (previous.item? d k) := by
  rw [SourceSetDiff.change?, filesIn_diff hcurrent hprevious, ← get?_setOrEmpty,
    ← get?_setOrEmpty, ← Snapshot.get?_diff]
  dsimp only
  split
  · rename_i hempty
    exact (Table.isEmpty_iff_get?.1 hempty k).symm
  · rfl

theorem isEmpty_of_filesIn (hcurrent : current.Coherent) (hprevious : previous.Coherent) {d : String}
    {changes : Diff τ} (h : (current.diff previous).filesIn d = some changes) :
    changes.isEmpty = false := by
  rw [filesIn_diff hcurrent hprevious] at h
  dsimp only at h
  split at h
  · cases h
  · rename_i hchanges
    cases h
    exact eq_false_of_ne_true hchanges

theorem get?_directories_diff (current previous : SourceSet τ) (d : String) :
    (current.diff previous).directories.get? d =
      Change.between? (current.directories.get? d) (previous.directories.get? d) :=
  Snapshot.get?_diff _ _ d

theorem directories_isEmpty_iff : (current.diff previous).directories.isEmpty = true ↔
    current.directories.items = previous.directories.items := by
  rw [Table.isEmpty_iff_get?]
  constructor
  · intro hnone
    refine Table.ext_get? fun d => Change.between?_get?_eq_none_iff.1 ?_
    rw [← hnone d, get?_directories_diff]
    rfl
  · intro heq d
    rw [get?_directories_diff]
    exact Change.between?_get?_eq_none_iff.2 (by rw [heq])

/-- Whether a key in a directory is there on one side only, or on both with items that are not the
same. -/
def Differs (Same : τ → τ → Prop) (current previous : SourceSet τ) (d k : String) : Prop :=
  match current.item? d k, previous.item? d k with
  | none, none => False
  | some a, some b => ¬Same a b
  | _, _ => True

theorem differs_iff {Same : τ → τ → Prop} (hsame : ∀ a b : τ, Item.unchanged a b = true ↔ Same a b)
    (d k : String) : Differs Same current previous d k ↔
      (Change.between? (current.item? d k) (previous.item? d k)).isSome := by
  unfold Differs
  cases current.item? d k with
  | none => cases previous.item? d k <;> simp [Change.between?]
  | some a =>
    cases previous.item? d k with
    | none => simp [Change.between?]
    | some b =>
      show ¬Same a b ↔ _
      rw [Change.between?, ← hsame a b]
      cases Item.unchanged a b <;> simp

/-- All that the difference of two source sets is asked to say, where `Same` tells whether two items
under one key agree. -/
structure DiffExact (Same : τ → τ → Prop) (current previous : SourceSet τ) : Prop where
  entry_iff : ∀ d k, ((current.diff previous).change? d k).isSome ↔
    Differs Same current previous d k
  added_iff : ∀ d k a, (current.diff previous).change? d k = some (.added a) ↔
    current.item? d k = some a ∧ previous.item? d k = none
  removed_iff : ∀ d k b, (current.diff previous).change? d k = some (.removed b) ↔
    current.item? d k = none ∧ previous.item? d k = some b
  changed_iff : ∀ d k a b, (current.diff previous).change? d k = some (.changed a b) ↔
    current.item? d k = some a ∧ previous.item? d k = some b ∧ ¬Same a b
  directory_added_iff : ∀ d, (current.diff previous).directories.get? d = some (.added ⟨d⟩) ↔
    (current.set? d).isSome ∧ previous.set? d = none
  directory_removed_iff : ∀ d, (current.diff previous).directories.get? d = some (.removed ⟨d⟩) ↔
    current.set? d = none ∧ (previous.set? d).isSome
  directory_absent_iff : ∀ d, (current.diff previous).directories.get? d = none ↔
    (current.set? d).isSome = (previous.set? d).isSome
  no_empty : ∀ d changes, (current.diff previous).filesIn d = some changes →
    changes.isEmpty = false
  isEmpty_iff : (current.diff previous).isEmpty = true ↔
    current.directories.items = previous.directories.items ∧
      ∀ d k, ¬Differs Same current previous d k
  count : {p : String × String | Differs Same current previous p.1 p.2}.encard =
    (current.diff previous).fileChangeCount

theorem diffExact_of_coherent {Same : τ → τ → Prop}
    (hsame : ∀ a b : τ, Item.unchanged a b = true ↔ Same a b) (hcurrent : current.Coherent)
    (hprevious : previous.Coherent) : DiffExact Same current previous := by
  have hentry : ∀ d k, ((current.diff previous).change? d k).isSome ↔
      Differs Same current previous d k := by
    intro d k
    rw [change?_diff hcurrent hprevious, differs_iff hsame]
  have hnoEmpty : ∀ d changes, (current.diff previous).filesIn d = some changes →
      changes.isEmpty = false := fun _ _ => isEmpty_of_filesIn hcurrent hprevious
  have hdirectory : ∀ d, (current.diff previous).directories.get? d =
      Change.between? ((current.set? d).map fun _ => ⟨d⟩) ((previous.set? d).map fun _ => ⟨d⟩) := by
    intro d
    rw [get?_directories_diff, hcurrent.get?_directory, hprevious.get?_directory]
  refine ⟨hentry, ?_, ?_, ?_, ?_, ?_, ?_, hnoEmpty, ?_, ?_⟩
  · intro d k a
    rw [change?_diff hcurrent hprevious, Change.between?_eq_added_iff]
  · intro d k b
    rw [change?_diff hcurrent hprevious, Change.between?_eq_removed_iff]
  · intro d k a b
    rw [change?_diff hcurrent hprevious, Change.between?_eq_changed_iff, ← hsame, Bool.not_eq_true]
  · intro d
    rw [hdirectory, Change.between?_eq_added_iff, Option.map_eq_none_iff]
    simp [Option.isSome_iff_exists]
  · intro d
    rw [hdirectory, Change.between?_eq_removed_iff, Option.map_eq_none_iff]
    simp [Option.isSome_iff_exists]
  · intro d
    rw [hdirectory]
    cases current.set? d <;> cases previous.set? d <;> simp [Change.between?, Item.unchanged]
  · rw [SourceSetDiff.isEmpty, Bool.and_eq_true, directories_isEmpty_iff,
      SourceSetDiff.files_isEmpty_iff hnoEmpty]
    simp only [← hentry, Option.not_isSome_iff_eq_none]
  · simp only [← hentry]
    exact SourceSetDiff.encard_changed _

end SourceSet

namespace SourceSet

theorem coherent_of_keys_eq {τ : Type} [Item τ] {s : SourceSet τ}
    (h : s.directories.items.keys = s.sets.keys) : s.Coherent := by
  intro d
  rw [Bool.eq_iff_iff, Table.contains_iff_mem_keys, Table.contains_iff_mem_keys, h]

theorem coherent_of_scan {τ : Type} [Scannable τ] {fs : FileSystem} {root : Path}
    {directories : List Path} {filter : Filter} {options : ScanOptions} {s : SourceSet τ}
    (h : scan fs root directories filter options = .ok s) : s.Coherent := by
  rw [scan_eq, bind_eq_ok] at h
  obtain ⟨sets, -, hassemble⟩ := h
  obtain ⟨-, -, hnames, hsets⟩ := assemble_eq_ok_iff.1 hassemble
  have hkeys : s.directories.items.keys.Perm s.sets.keys := hnames.symm.trans (hsets.map Prod.fst)
  intro d
  rw [Bool.eq_iff_iff, Table.contains_iff_mem_keys, Table.contains_iff_mem_keys, hkeys.mem_iff]

end SourceSet

/-- Between coherent source sets a difference tells all keys in all directories apart, and every
scanned set is coherent, also when it has been kept as a state. -/
theorem sourceSetDiff_exact :
    (∀ current previous : SourceSet FileItem, current.Coherent → previous.Coherent →
      SourceSet.DiffExact (fun a b => a.fingerprint = b.fingerprint) current previous) ∧
    (∀ current previous : SourceSet KeyItem, current.Coherent → previous.Coherent →
      SourceSet.DiffExact (fun _ _ => True) current previous) ∧
    (∀ (τ : Type) [Scannable τ] (fs : FileSystem) (root : Path) (directories : List Path)
      (filter : Filter) (options : ScanOptions) (s : SourceSet τ),
      SourceSet.scan fs root directories filter options = .ok s → s.Coherent) ∧
    ∀ (τ : Type) [Item τ] [Wire.Format τ] [Wire.Lawful τ] (s : SourceSet τ), s.Coherent →
      Wire.Fits s → ∀ checksum, ∃ t : SourceSet τ,
        SourceSet.deserialize (s.serialize checksum) checksum = .ok t ∧ t.Coherent := by
  refine ⟨fun _ _ => SourceSet.diffExact_of_coherent fun a b => by simp [Item.unchanged],
    fun _ _ => SourceSet.diffExact_of_coherent fun a b => by simp [Item.unchanged],
    fun _ _ _ _ _ _ _ _ => SourceSet.coherent_of_scan, ?_⟩
  intro τ _ _ _ s hs hfits checksum
  exact ⟨s, SourceSet.deserialize_serialize hfits checksum, hs⟩

/-- One directory of files less than in `SourceSet.widths`, one file more in the other, and one new
directory without files. -/
def SourceSet.edited : SourceSet FileItem where
  projectRoot := "/p"
  directories := ⟨"", ⟨[⟨"z"⟩, ⟨"ü"⟩], by decide +kernel⟩⟩
  sets := ⟨[("z", .empty "/p/z"), ("ü", ⟨"", ⟨[⟨"k", .metadata 1 2⟩], by decide +kernel⟩⟩)],
    by decide +kernel⟩

theorem sourceSetDiff_exact_edited :
    (SourceSet.edited.Coherent ∧ SourceSet.widths.Coherent ∧
      SourceSet.DiffExact (fun a b => a.fingerprint = b.fingerprint) SourceSet.edited
        SourceSet.widths) ∧
    (SourceSet.bare.Coherent ∧
      SourceSet.DiffExact (fun _ _ => True) SourceSet.bare SourceSet.bare) ∧
    (∃ s : SourceSet FileItem, SourceSet.scan
      ⟨.directory true [([97], .directory true [([98], .file ⟨[1, 2], 5, true⟩)])], [], 9⟩
      (.ofString ".") [.ofString "a", .ofString "c"] (fun _ => true) {} = .ok s ∧ s.Coherent) ∧
    Wire.Fits SourceSet.widths ∧ ∃ t : SourceSet FileItem,
      SourceSet.deserialize SourceSet.widths.serialize = .ok t ∧ t.Coherent := by
  have hedited : SourceSet.edited.Coherent := SourceSet.coherent_of_keys_eq (by decide)
  have hwidths : SourceSet.widths.Coherent := SourceSet.coherent_of_keys_eq (by decide)
  have hbare : SourceSet.bare.Coherent := SourceSet.coherent_of_keys_eq (by decide)
  obtain ⟨hfiles, hnames, hscanned, hkept⟩ := sourceSetDiff_exact
  refine ⟨⟨hedited, hwidths, hfiles _ _ hedited hwidths⟩, ⟨hbare, hnames _ _ hbare hbare⟩, ?_,
    SourceSet.fits_widths, hkept _ _ hwidths SourceSet.fits_widths _⟩
  have hscan : SourceSet.scan (τ := FileItem)
      ⟨.directory true [([97], .directory true [([98], .file ⟨[1, 2], 5, true⟩)])], [], 9⟩
      (.ofString ".") [.ofString "a", .ofString "c"] (fun _ => true) {} = .ok
      ⟨".", ⟨".", ⟨[⟨"a"⟩, ⟨"c"⟩], by decide +kernel⟩⟩,
        ⟨[("a", ⟨"./a", ⟨[⟨"b", .metadata 5 2⟩], by decide +kernel⟩⟩), ("c", .empty "./c")],
          by decide +kernel⟩⟩ := by
    decide +kernel
  exact ⟨_, hscan, hscanned _ _ _ _ _ _ _ hscan⟩

end BuildDelta
