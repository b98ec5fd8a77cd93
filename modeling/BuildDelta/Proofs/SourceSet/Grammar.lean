import BuildDelta.Proofs.Snapshot.Grammar
import BuildDelta.Proofs.SourceSet.Exact
/-!
# What a state of a source set can look like

In a state of a source set the names of the directories stand apart from what is in the directories, as
a snapshot and as a list of entries. Reading does not hold one against the other, and of entries with
one name it takes the last. So the states that are read are all frames of the kind, whatever names and
entries they bring together (`SourceSet.deserialize_eq_ok_iff`, `SourceSet.isState_encode`). What is read
accounts for every file of every directory if the names are those of the entries
(`SourceSet.IsState.coherent_iff`); if one is missing among the names, what is under it is never reported
as removed (`SourceSet.filesIn_diff_of_unlisted`).
-/

namespace BuildDelta

open Wire

section Forms

variable {τ : Type} [Item τ] [Format τ] [Lawful τ] [Grammar τ]

/-- The forms of a snapshot inside a larger state: its root and its items, in any order but each key
once. -/
def Snapshot.Form (used : Bytes) (s : Snapshot τ) : Prop :=
  ∃ (root list : Bytes) (items : List τ), used = root ++ list ∧ Denotes root s.root ∧
    Denotes list items ∧ (items.map key).Nodup ∧ items.Perm s.items.toList

omit [Format τ] [Lawful τ] [Grammar τ] in
theorem Snapshot.reads_ofItems (root : String) (items : List τ) :
    (match ofItems root items with
      | .ok s => pure s
      | .error e => .fail (.repeatedKey e.key) : Reader (Snapshot τ)).Reads
      fun used s => used = [] ∧ ofItems root items = .ok s := by
  cases hitems : ofItems root items with
  | ok s =>
    refine (Reader.reads_pure s).congr fun used t => ?_
    rw [Except.ok.injEq, eq_comm (a := s)]
  | error e =>
    refine (Reader.reads_fail _).congr fun used t => ⟨False.elim, ?_⟩
    rintro ⟨-, h⟩
    cases h

theorem Snapshot.reads_form : (read : Reader (Snapshot τ)).Reads Form := by
  have hparts : (readParts : Reader (String × List τ)).Reads _ := reads.both reads Prod.mk
  refine (hparts.bind fun p => reads_ofItems p.1 p.2).congr fun used s => ⟨?_, ?_⟩
  · rintro ⟨_, first, _, rfl, ⟨root, items, rootForm, list, rfl, hroot, hlist, rfl⟩, rfl, hitems⟩
    obtain ⟨rfl, hnodup, hperm⟩ := ofItems_eq_ok_iff.1 hitems
    exact ⟨rootForm, list, items, List.append_nil _, hroot, hlist, hnodup, hperm⟩
  · rintro ⟨rootForm, list, items, rfl, hroot, hlist, hnodup, hperm⟩
    exact ⟨(s.root, items), _, [], (List.append_nil _).symm,
      ⟨_, _, rootForm, list, rfl, hroot, hlist, rfl⟩, rfl, ofItems_eq_ok_iff.2 ⟨rfl, hnodup, hperm⟩⟩

namespace SourceSet

/-- The forms of a name with the snapshot that is under it. -/
def EntryForm (used : Bytes) (entry : String × Snapshot τ) : Prop :=
  ∃ name set, used = name ++ set ∧ Denotes name entry.1 ∧ entry.2.Form set

theorem reads_entryForm : (read : Reader (String × Snapshot τ)).Reads EntryForm := by
  refine (reads.both Snapshot.reads_form Prod.mk).congr fun used entry => ⟨?_, ?_⟩
  · rintro ⟨_, _, name, set, hused, hname, hset, rfl⟩
    exact ⟨name, set, hused, hname, hset⟩
  · rintro ⟨name, set, hused, hname, hset⟩
    exact ⟨_, _, name, set, hused, hname, hset, rfl⟩

/-- The forms of a source set that is made of these entries. Nothing is asked of the names: neither
that they differ nor that they are the names of the directories. -/
def Form (used : Bytes) (entries : List (String × Snapshot τ)) (s : SourceSet τ) : Prop :=
  ∃ root names list, used = root ++ (names ++ list) ∧ Denotes root s.projectRoot ∧
    s.directories.Form names ∧ ListOf EntryForm list entries ∧ s.sets = .ofList entries

theorem reads_form :
    (read : Reader (SourceSet τ)).Reads fun used s => ∃ entries, Form used entries s := by
  refine (reads.bind fun root => Snapshot.reads_form.both (reads_listOf reads_entryForm)
    fun directories sets => (⟨root, directories, .ofList sets⟩ : SourceSet τ)).congr
    fun used s => ⟨?_, ?_⟩
  · rintro ⟨_, root, _, rfl, hroot, _, entries, names, list, rfl, hnames, hlist, rfl⟩
    exact ⟨entries, root, names, list, rfl, hroot, hnames, hlist, rfl⟩
  · rintro ⟨entries, root, names, list, rfl, hroot, hnames, hlist, hsets⟩
    refine ⟨_, root, _, rfl, hroot, _, entries, names, list, rfl, hnames, hlist, ?_⟩
    rw [← hsets]

/-- The states of a source set: frames of its kind around one of its forms. -/
def IsState (checksum : Frame.Checksum) (bytes : Bytes) (entries : List (String × Snapshot τ))
    (s : SourceSet τ) : Prop :=
  ∃ payload, Frame.Frames (frameKind τ) checksum payload bytes ∧ Form payload entries s

variable {checksum : Frame.Checksum} {bytes : Bytes} {s : SourceSet τ}
  {entries : List (String × Snapshot τ)}

theorem deserialize_eq_ok_iff :
    deserialize bytes checksum = .ok s ↔ ∃ entries, s.IsState checksum bytes entries := by
  unfold deserialize
  rw [Frame.decode_eq_ok_iff]
  constructor
  · rintro ⟨payload, hframes, hread⟩
    obtain ⟨entries, hform⟩ := reads_form.of_read_eq hread
    exact ⟨entries, payload, hframes, hform⟩
  · rintro ⟨entries, payload, hframes, hform⟩
    have hread := reads_form.read_eq ⟨entries, hform⟩ []
    rw [List.append_nil] at hread
    exact ⟨payload, hframes, hread⟩

/-- Names and entries make a state whatever they are. -/
theorem isState_encode {root : String} {directories : Snapshot KeyItem} (hroot : Fits root)
    (hdirectories : Fits directories) (hentries : Fits entries) (checksum : Frame.Checksum) :
    IsState checksum (Frame.encode (frameKind τ)
      (write root ++ (write directories ++ write entries)) checksum) entries
      ⟨root, directories, .ofList entries⟩ :=
  ⟨_, Frame.frames_encode _ _ _, _, _, _, rfl, denotes_write reads hroot,
    denotes_write Snapshot.reads_form hdirectories,
    denotes_write (reads_listOf reads_entryForm) hentries, rfl⟩

theorem IsState.set?_eq (h : s.IsState checksum bytes entries) (d : String) :
    s.set? d = (entries.reverse.find? fun entry => entry.1 = d).map Prod.snd := by
  obtain ⟨_, -, _, _, _, -, -, -, -, hsets⟩ := h
  rw [set?, hsets, Table.get?_ofList]
  rfl

theorem IsState.coherent_iff (h : s.IsState checksum bytes entries) :
    s.Coherent ↔ ∀ d, d ∈ s.directories.items.keys ↔ d ∈ entries.map Prod.fst := by
  obtain ⟨_, -, _, _, _, -, -, -, -, hsets⟩ := h
  have hnames (d : String) : s.sets.contains d = true ↔ d ∈ entries.map Prod.fst := by
    rw [hsets, Table.contains_ofList, List.contains_iff_mem]
    rfl
  refine forall_congr' fun d => ?_
  rw [Bool.eq_iff_iff, hnames, Table.contains_iff_mem_keys]

theorem IsState.perm_iff (h : s.IsState checksum bytes entries) :
    entries.Perm s.sets.toList ↔ (entries.map Prod.fst).Nodup := by
  obtain ⟨_, -, _, _, _, -, -, -, -, hsets⟩ := h
  rw [hsets]
  exact Table.perm_ofList_iff

end SourceSet

end Forms

namespace SourceSet

variable {τ : Type} [Item τ] {current previous : SourceSet τ}

/-- Removed directories are found by their names alone. -/
theorem filesIn_diff_of_unlisted {d : String} (hunlisted : previous.directories.get? d = none)
    (hgone : current.set? d = none) : (current.diff previous).filesIn d = none := by
  rw [SourceSetDiff.filesIn, Option.map_eq_none_iff, files_diff,
    SourceSetDiff.get?_addAll_of_not_mem, SourceSetDiff.get?_addAll_of_not_mem]
  · rfl
  · rintro ⟨_, now⟩ hmem rfl
    rw [set?_eq_some_iff.2 hmem] at hgone
    cases hgone
  · rintro _ hmem rfl
    obtain ⟨c, hc, hstatus⟩ := Diff.mem_keysWithStatus.1 hmem
    cases c with
    | removed i =>
      obtain ⟨-, hlisted⟩ := Change.between?_eq_removed_iff.1 ((Snapshot.get?_diff ..).symm.trans hc)
      rw [id, hlisted] at hunlisted
      cases hunlisted
    | added i => cases hstatus
    | changed i j => cases hstatus

/-- What is known of a source set that was made of these entries, where `Same` tells whether two items
under one key agree. It holds all entries if their names differ; of those with one name the last one
stands. It accounts for everything if its names are those of the entries; what is under any other name
is never missed. -/
structure MadeOf (Same : τ → τ → Prop) (entries : List (String × Snapshot τ)) (s : SourceSet τ) :
    Prop where
  perm_iff : entries.Perm s.sets.toList ↔ (entries.map Prod.fst).Nodup
  set?_eq : ∀ d, s.set? d = (entries.reverse.find? fun entry => entry.1 = d).map Prod.snd
  coherent_iff : s.Coherent ↔ ∀ d, d ∈ s.directories.items.keys ↔ d ∈ entries.map Prod.fst
  diffExact : s.Coherent → ∀ current : SourceSet τ, current.Coherent → DiffExact Same current s
  unlisted : ∀ (current : SourceSet τ) d, s.directories.get? d = none → current.set? d = none →
    (current.diff s).filesIn d = none

theorem IsState.madeOf [Format τ] [Lawful τ] [Grammar τ] {Same : τ → τ → Prop}
    (hsame : ∀ a b : τ, Item.unchanged a b = true ↔ Same a b) {checksum : Frame.Checksum}
    {bytes : Bytes} {s : SourceSet τ} {entries : List (String × Snapshot τ)}
    (h : s.IsState checksum bytes entries) : s.MadeOf Same entries where
  perm_iff := h.perm_iff
  set?_eq := h.set?_eq
  coherent_iff := h.coherent_iff
  diffExact hs _ hcurrent := diffExact_of_coherent hsame hcurrent hs
  unlisted _ _ := filesIn_diff_of_unlisted

end SourceSet

/-- What is read as a source set are its states and nothing else. Whether a set so read is well-formed
depends on the names alone: it is if the names of the entries differ and are the names of the
directories. -/
theorem source_set_states_are_described (checksum : Frame.Checksum) (bytes : Bytes) :
    (∀ s : SourceSet FileItem,
      (SourceSet.deserialize bytes checksum = .ok s ↔ ∃ entries, s.IsState checksum bytes entries) ∧
        ∀ entries, s.IsState checksum bytes entries →
          s.MadeOf (fun a b => a.fingerprint = b.fingerprint) entries) ∧
    ∀ s : SourceSet KeyItem,
      (SourceSet.deserialize bytes checksum = .ok s ↔ ∃ entries, s.IsState checksum bytes entries) ∧
        ∀ entries, s.IsState checksum bytes entries → s.MadeOf (fun _ _ => True) entries :=
  ⟨fun _ => ⟨SourceSet.deserialize_eq_ok_iff, fun _ h => h.madeOf fun a b => by simp [Item.unchanged]⟩,
    fun _ => ⟨SourceSet.deserialize_eq_ok_iff, fun _ h => h.madeOf fun a b => by simp [Item.unchanged]⟩⟩

namespace SourceSet

/-- A directory with one file, and the same directory without it. -/
def emptied : List (String × Snapshot FileItem) :=
  [("a", ⟨"p/a", ⟨[⟨"x", .metadata 1 2⟩], by decide +kernel⟩⟩), ("a", .empty "p/a")]

def listed : Snapshot KeyItem := ⟨"p", ⟨[⟨"a"⟩], by decide +kernel⟩⟩

/-- A state that names its only directory twice. -/
def twiceNamedState : Bytes :=
  Frame.encode (frameKind FileItem) (write "p" ++ (write listed ++ write emptied))

/-- A state that holds a directory without naming it. -/
def unlistedState : Bytes :=
  Frame.encode (frameKind FileItem)
    (write "p" ++ (write (.empty "p" : Snapshot KeyItem) ++ write (emptied.take 1)))

theorem fits_emptied : Fits emptied := by
  simp only [emptied, Snapshot.fits_iff, FileItem.fits_iff, fits_text, fits_list, fits_pair]
  decide +kernel

theorem fits_listed : Fits listed := by
  simp only [listed, Snapshot.fits_iff, KeyItem.fits_iff, fits_text, fits_list]
  decide +kernel

theorem fits_root : Fits "p" := by
  rw [fits_text]
  decide +kernel

theorem isState_twiceNamed :
    IsState ContentHash.ofBytes twiceNamedState emptied ⟨"p", listed, .ofList emptied⟩ :=
  isState_encode fits_root fits_listed fits_emptied _

theorem isState_unlisted : IsState ContentHash.ofBytes unlistedState (emptied.take 1)
    ⟨"p", .empty "p", .ofList (emptied.take 1)⟩ := by
  have hentries : Fits (emptied.take 1) :=
    ⟨by decide, fun entry h => fits_emptied.2 entry (List.mem_of_mem_take h)⟩
  have hnone : Fits (.empty "p" : Snapshot KeyItem) := ⟨fits_root, by decide, nofun⟩
  exact isState_encode fits_root hnone hentries _

end SourceSet

theorem source_set_states_are_described_twiceNamed :
    (∃ s : SourceSet FileItem, SourceSet.deserialize SourceSet.twiceNamedState = .ok s ∧
      s.IsState ContentHash.ofBytes SourceSet.twiceNamedState SourceSet.emptied ∧
      s.MadeOf (fun a b => a.fingerprint = b.fingerprint) SourceSet.emptied) ∧
    ∃ (s : SourceSet KeyItem) (entries : List (String × Snapshot KeyItem)),
      SourceSet.deserialize SourceSet.bare.serialize = .ok s ∧
      s.IsState ContentHash.ofBytes SourceSet.bare.serialize entries ∧
      s.MadeOf (fun _ _ => True) entries := by
  have htwice := SourceSet.isState_twiceNamed
  have hbare : SourceSet.deserialize SourceSet.bare.serialize = .ok SourceSet.bare :=
    SourceSet.deserialize_serialize SourceSet.fits_bare ContentHash.ofBytes
  obtain ⟨hfiles, hmadeOfFiles⟩ :=
    (source_set_states_are_described ContentHash.ofBytes SourceSet.twiceNamedState).1 _
  obtain ⟨hnames, hmadeOfNames⟩ :=
    (source_set_states_are_described ContentHash.ofBytes SourceSet.bare.serialize).2 SourceSet.bare
  obtain ⟨entries, hentries⟩ := hnames.1 hbare
  exact ⟨⟨_, hfiles.2 ⟨_, htwice⟩, htwice, hmadeOfFiles _ htwice⟩,
    _, entries, hbare, hentries, hmadeOfNames _ hentries⟩

/-- What is read as a source set need not have been one. A directory that is named twice loses its file
to the empty one behind it; and a directory that is not among the names is read, but that its file is
gone in an empty source set is not noticed. -/
theorem ill_formed_source_sets_are_read :
    (∃ s : SourceSet FileItem, SourceSet.deserialize SourceSet.twiceNamedState = .ok s ∧
      s.IsState ContentHash.ofBytes SourceSet.twiceNamedState SourceSet.emptied ∧
      ¬(SourceSet.emptied.map Prod.fst).Nodup ∧ s.item? "a" "x" = none) ∧
    ∃ s : SourceSet FileItem, SourceSet.deserialize SourceSet.unlistedState = .ok s ∧
      s.directories.items.keys = [] ∧ s.sets.keys = ["a"] ∧
      s.item? "a" "x" = some ⟨"x", .metadata 1 2⟩ ∧
      (SourceSet.diff ⟨"p", .empty "p", .empty⟩ s).isEmpty = true := by
  refine ⟨⟨_, SourceSet.deserialize_eq_ok_iff.2 ⟨_, SourceSet.isState_twiceNamed⟩,
    SourceSet.isState_twiceNamed, by decide +kernel, by decide +kernel⟩,
    _, SourceSet.deserialize_eq_ok_iff.2 ⟨_, SourceSet.isState_unlisted⟩, ?_⟩
  decide +kernel

end BuildDelta
