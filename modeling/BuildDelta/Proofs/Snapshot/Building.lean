import BuildDelta.Proofs.Json.Values
import BuildDelta.Proofs.Snapshot.Grammar
/-!
# Building and reading agree

A list of items becomes a snapshot in several ways: it is built, or it is read, from a state of its own,
from inside a larger state, or from a text. Each way looks at the keys for itself and reports a repeated
one in its own words. What is said here of all lists is that every way does what building does
(`Snapshot.deserialize_of_isStateOf`, `Snapshot.read_of_readParts`, `Snapshot.read_of_textParts`): the
same lists are taken, as the same snapshot, and the others are refused for the same key
(`building_and_reading_agree`).
-/

namespace BuildDelta

open Wire

namespace Snapshot

variable {τ : Type} [Item τ] [Format τ] [Lawful τ] [Grammar τ] {root : String} {items : List τ}

/-- The states that hold a root and a list of items in its order, whatever the keys. -/
def IsStateOf (checksum : Frame.Checksum) (bytes : Bytes) (root : String) (items : List τ) : Prop :=
  ∃ first next, Frame.Frames (frameKind τ) checksum (first ++ next) bytes ∧ Denotes first root ∧
    Denotes next items

omit [Lawful τ] [Grammar τ] in
/-- The state that is written for a root and a list of items. -/
def stateOf (root : String) (items : List τ) (checksum : Frame.Checksum) : Bytes :=
  Frame.encode (frameKind τ) (write root ++ write items) checksum

theorem isStateOf_stateOf (hroot : Fits root) (hitems : Fits items) (checksum : Frame.Checksum) :
    IsStateOf checksum (stateOf root items checksum) root items :=
  ⟨write root, write items, Frame.frames_encode (frameKind τ) _ checksum, denotes_write reads hroot,
    denotes_write reads hitems⟩

/-- A state is read in two steps, and the second one is building. -/
theorem deserialize_of_isStateOf {checksum : Frame.Checksum} {bytes : Bytes}
    (h : IsStateOf checksum bytes root items) :
    deserialize bytes checksum = (ofItems root items).mapError fun e => .duplicateKey e.key := by
  obtain ⟨first, next, hframes, hroot, hitems⟩ := h
  have hreads : (readParts : Reader (String × List τ)).Reads _ := reads.both reads Prod.mk
  have hread := hreads.read_eq ⟨root, items, first, next, rfl, hroot, hitems, rfl⟩ []
  rw [List.append_nil] at hread
  have hdecode : Frame.decode (frameKind τ) readParts bytes checksum = .ok (root, items) :=
    Frame.decode_of_frames hframes hread
  unfold deserialize
  rw [hdecode]
  cases hitems : ofItems root items <;> simp only [bind, Except.bind, hitems] <;> rfl

omit [Lawful τ] [Grammar τ] in
/-- So is a snapshot inside a larger state, whatever follows it. -/
theorem read_of_readParts {bytes rest : Bytes} (h : readParts bytes = .ok ((root, items), rest)) :
    (read : Reader (Snapshot τ)) bytes = match ofItems root items with
      | .ok s => .ok (s, rest)
      | .error e => .error (.repeatedKey e.key) := by
  refine (Reader.bind_ok h).trans ?_
  cases hitems : ofItems root items <;> simp only [hitems] <;> rfl

omit [Format τ] [Lawful τ] [Grammar τ] in
theorem get?_of_ofItems {s : Snapshot τ} (h : ofItems root items = .ok s) (k : String) (a : τ) :
    s.get? k = some a ↔ a ∈ items ∧ key a = k := by
  obtain ⟨-, -, hperm⟩ := ofItems_eq_ok_iff.1 h
  rw [get?, Table.get?_eq_some_iff, hperm.mem_iff]

omit [Format τ] [Lawful τ] [Grammar τ] in
theorem exists_ofItems (root : String) (h : (items.map key).Nodup) :
    ∃ s : Snapshot τ, ofItems root items = .ok s := by
  obtain ⟨table, htable⟩ := Table.exists_ofList? h
  exact ⟨⟨root, table⟩, by rw [ofItems, htable]⟩

omit [Format τ] [Lawful τ] [Grammar τ] in
theorem exists_ofItems_error (root : String) (h : ¬(items.map key).Nodup) :
    ∃ k, Table.FirstRepeated items k ∧ ofItems root items = .error ⟨k, root⟩ := by
  obtain ⟨k, hlist, hfirst⟩ := Table.exists_firstRepeated h
  exact ⟨k, hfirst, by rw [ofItems, hlist]⟩

variable [Json.Format τ]

/-- All that building a snapshot of a list and reading one have in common. -/
structure BuiltAlike (root : String) (items : List τ) : Prop where
  /-- A list without repeated keys is taken everywhere, as the snapshot that holds its items. -/
  taken : (items.map key).Nodup → ∃ s : Snapshot τ,
    ofItems root items = .ok s ∧
    (∀ checksum bytes, IsStateOf checksum bytes root items → deserialize bytes checksum = .ok s) ∧
    (∀ bytes rest, readParts bytes = .ok ((root, items), rest) → read bytes = .ok (s, rest)) ∧
    (∀ text, textParts (Json.scan text) = .ok ((root, items), []) → Json.decode text = .ok s) ∧
    s.root = root ∧ ∀ k a, s.get? k = some a ↔ a ∈ items ∧ key a = k
  /-- Any other list is refused everywhere, with the key that occurs in it again first. -/
  refused : ¬(items.map key).Nodup → ∃ k, Table.FirstRepeated items k ∧
    (ofItems root items : Except DuplicateKey (Snapshot τ)) = .error ⟨k, root⟩ ∧
    (∀ checksum bytes, IsStateOf checksum bytes root items →
      (deserialize bytes checksum : Except CorruptState (Snapshot τ)) = .error (.duplicateKey k)) ∧
    (∀ bytes rest, readParts bytes = .ok ((root, items), rest) →
      (read : Reader (Snapshot τ)) bytes = .error (.repeatedKey k)) ∧
    ∀ text rest, textParts (Json.scan text) = .ok ((root, items), rest) →
      (Json.decode text : Except Json.Error (Snapshot τ)) = .error (.repeatedKey k)
  /-- What is written for the list is a state of it. -/
  state : Fits root → Fits items → ∀ checksum,
    IsStateOf checksum (stateOf root items checksum) root items
  bytes : Fits root → Fits items → ∀ rest,
    readParts (write root ++ (write items ++ rest)) = .ok ((root, items), rest)
  text : textParts (Json.scan (Json.compact (partTokens root items))) = .ok ((root, items), [])

theorem builtAlike [Json.Lawful τ] (root : String) (items : List τ) : BuiltAlike root items where
  taken hnodup := by
    obtain ⟨s, hs⟩ := exists_ofItems root hnodup
    refine ⟨s, hs, ?_, ?_, ?_, (ofItems_eq_ok_iff.1 hs).1, get?_of_ofItems hs⟩
    · intro checksum bytes hstate
      rw [deserialize_of_isStateOf hstate, hs]
      rfl
    · intro bytes rest hparts
      rw [read_of_readParts hparts, hs]
    · intro text hparts
      rw [Json.decode, Json.decodeWith, read_of_textParts hparts, hs]
  refused hrepeated := by
    obtain ⟨k, hfirst, hk⟩ := exists_ofItems_error root hrepeated
    refine ⟨k, hfirst, hk, ?_, ?_, ?_⟩
    · intro checksum bytes hstate
      rw [deserialize_of_isStateOf hstate, hk]
      rfl
    · intro bytes rest hparts
      rw [read_of_readParts hparts, hk]
    · intro text rest hparts
      rw [Json.decode, Json.decodeWith, read_of_textParts hparts, hk]
  state := isStateOf_stateOf
  bytes hroot hitems rest := by
    refine (Reader.bind_ok (read_write root hroot _)).trans ?_
    exact Reader.bind_ok (read_write items hitems rest)
  text := textParts_compact root items

end Snapshot

/-- Of every list of items, building and reading make the same snapshot, or they all refuse the list for
its first repeated key. -/
theorem building_and_reading_agree :
    (∀ (root : String) (items : List FileItem), Snapshot.BuiltAlike root items) ∧
      ∀ (root : String) (items : List KeyItem), Snapshot.BuiltAlike root items :=
  ⟨Snapshot.builtAlike, Snapshot.builtAlike⟩

/-- Three files in no order, and names of which two occur again, the later one first. -/
theorem building_and_reading_agree_shuffled :
    let files : List FileItem :=
      [⟨"b", .metadata 1 2⟩, ⟨"a", .content (.ofBytes [7]) 1⟩, ⟨"", .metadata 3 4⟩]
    let names : List KeyItem := [⟨"b"⟩, ⟨"a"⟩, ⟨"c"⟩, ⟨"a"⟩, ⟨"b"⟩]
    (∃ s : Snapshot FileItem, Snapshot.ofItems "r" files = .ok s ∧
      Snapshot.deserialize (Snapshot.stateOf "r" files ContentHash.ofBytes) = .ok s ∧
      Json.decode (Json.compact (Snapshot.partTokens "r" files)) = .ok s ∧
      s.get? "a" = some ⟨"a", .content (.ofBytes [7]) 1⟩) ∧
    ∃ k, Table.FirstRepeated names k ∧
      (Snapshot.ofItems "r" names : Except DuplicateKey (Snapshot KeyItem)) = .error ⟨k, "r"⟩ ∧
      (Snapshot.deserialize (Snapshot.stateOf "r" names ContentHash.ofBytes) :
        Except CorruptState (Snapshot KeyItem)) = .error (.duplicateKey k) ∧
      (Json.decode (Json.compact (Snapshot.partTokens "r" names)) :
        Except Json.Error (Snapshot KeyItem)) = .error (.repeatedKey k) := by
  intro files names
  obtain ⟨hfiles, hnames⟩ := building_and_reading_agree
  have hroot : Fits "r" := by
    simp only [fits_text]
    decide +kernel
  have hfits : Fits files := by
    simp only [fits_list, FileItem.fits_iff, fits_text]
    decide +kernel
  have hnamesFit : Fits names := by
    simp only [fits_list, KeyItem.fits_iff, fits_text]
    decide +kernel
  obtain ⟨s, hs, hstate, -, htext, -, hget⟩ := (hfiles "r" files).taken (by decide)
  obtain ⟨k, hfirst, hk, hstateRefused, -, htextRefused⟩ := (hnames "r" names).refused (by decide)
  refine ⟨⟨s, hs, ?_, ?_, ?_⟩, k, hfirst, hk, ?_, ?_⟩
  · exact hstate _ _ ((hfiles "r" files).state hroot hfits _)
  · exact htext _ (hfiles "r" files).text
  · exact (hget "a" _).2 (by decide +kernel)
  · exact hstateRefused _ _ ((hnames "r" names).state hroot hnamesFit _)
  · exact htextRefused _ _ (hnames "r" names).text

end BuildDelta
