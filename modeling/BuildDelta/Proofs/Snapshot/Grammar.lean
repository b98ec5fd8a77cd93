import BuildDelta.Proofs.Frame.Grammar
import BuildDelta.Proofs.Snapshot.RoundTrip
import BuildDelta.Proofs.Table.Building
/-!
# What a state of a snapshot can look like

A snapshot has many states: its items stand in any order, its numbers in any width that fits, and
something may stand behind the header. `Snapshot.IsState` describes them without reading any. They are
exactly the byte strings that are read as the snapshot, and the one that is written is among them and
is not longer than any (`states_are_described`).
-/

namespace BuildDelta

open Wire

/-- What stands behind the number of a fingerprint's sort. -/
inductive FileFingerprint.Parts : Nat → Bytes → FileFingerprint → Prop
  | metadata {time size : Bytes} {modifiedNs len : UInt64} (htime : Denotes time modifiedNs)
    (hsize : Denotes size len) : Parts 0 (time ++ size) (.metadata modifiedNs len)
  | content {mark size : Bytes} {hash : ContentHash} {len : UInt64} (hmark : Denotes mark hash)
    (hsize : Denotes size len) : Parts 1 (mark ++ size) (.content hash len)

theorem FileFingerprint.reads_parts (sort : Nat) : (match sort with
    | 0 => do
      let modifiedNs ← read
      let len ← read
      pure (.metadata modifiedNs len)
    | 1 => do
      let hash ← read
      let len ← read
      pure (.content hash len)
    | n => .fail (.unknownVariant n 2) : Reader FileFingerprint).Reads (Parts sort) := by
  split
  · refine (reads.both reads FileFingerprint.metadata).congr fun used p => ⟨?_, ?_⟩
    · rintro ⟨_, _, time, size, rfl, htime, hsize, rfl⟩
      exact .metadata htime hsize
    · intro h
      cases h with
      | metadata htime hsize => exact ⟨_, _, _, _, rfl, htime, hsize, rfl⟩
  · refine (reads.both reads FileFingerprint.content).congr fun used p => ⟨?_, ?_⟩
    · rintro ⟨_, _, mark, size, rfl, hmark, hsize, rfl⟩
      exact .content hmark hsize
    · intro h
      cases h with
      | content hmark hsize => exact ⟨_, _, _, _, rfl, hmark, hsize, rfl⟩
  · rename_i hmetadata hcontent
    refine (Reader.reads_fail _).congr fun used p => ⟨False.elim, fun h => ?_⟩
    cases h with
    | metadata => exact hmetadata rfl
    | content => exact hcontent rfl

instance : Grammar FileFingerprint where
  Denotes used p := ∃ sort number parts, used = number ++ parts ∧ Numeral .word32 number sort ∧
    FileFingerprint.Parts sort parts p
  reads := by
    refine ((reads_numeral .word32).bind FileFingerprint.reads_parts).congr fun used p => ?_
    rfl
  fits _ _ _ := trivial
  shortest _ _ := by
    rintro ⟨_, number, _, rfl, hnumber, hparts⟩
    cases hparts with
    | metadata htime hsize =>
      have hforms := (hnumber.shortest.append (Grammar.shortest _ _ htime)).append
        (Grammar.shortest _ _ hsize)
      rwa [List.append_assoc number] at hforms
    | content hmark hsize =>
      have hforms := (hnumber.shortest.append (Grammar.shortest _ _ hmark)).append
        (Grammar.shortest _ _ hsize)
      rwa [List.append_assoc number] at hforms

instance : Grammar FileItem where
  Denotes used i := ∃ path print, used = path ++ print ∧ Denotes path i.relativePath ∧
    Denotes print i.fingerprint
  reads := by
    refine (reads.both reads FileItem.mk).congr fun used i => ⟨?_, ?_⟩
    · rintro ⟨_, _, path, print, hused, hpath, hprint, rfl⟩
      exact ⟨path, print, hused, hpath, hprint⟩
    · rintro ⟨path, print, hused, hpath, hprint⟩
      exact ⟨_, _, path, print, hused, hpath, hprint, rfl⟩
  fits _ i := by
    rintro ⟨path, _, -, hpath, -⟩
    exact Grammar.fits path i.relativePath hpath
  shortest _ _ := by
    rintro ⟨_, _, rfl, hpath, hprint⟩
    exact (Grammar.shortest _ _ hpath).append (Grammar.shortest _ _ hprint)

instance : Grammar KeyItem where
  Denotes used i := Denotes used i.name
  reads := by
    refine (reads.map KeyItem.mk).congr fun used i => ⟨?_, ?_⟩
    · rintro ⟨_, hname, rfl⟩
      exact hname
    · intro hname
      exact ⟨_, hname, rfl⟩
  fits used i := Grammar.fits used i.name
  shortest used i := Grammar.shortest used i.name

namespace Snapshot

variable {τ : Type} [Item τ] [Format τ] [Lawful τ] [Grammar τ] {checksum : Frame.Checksum}
  {bytes : Bytes} {s : Snapshot τ}

/-- The states of a snapshot: frames of its kind, and in them its root and its items, in any order but
each key once. -/
def IsState (checksum : Frame.Checksum) (bytes : Bytes) (s : Snapshot τ) : Prop :=
  ∃ (root list : Bytes) (items : List τ), Frame.Frames (frameKind τ) checksum (root ++ list) bytes ∧
    Denotes root s.root ∧ Denotes list items ∧ (items.map key).Nodup ∧ items.Perm s.items.toList

omit [Format τ] [Lawful τ] [Grammar τ] in
theorem ofItems_eq_ok_iff {root : String} {items : List τ} : ofItems root items = .ok s ↔
    s.root = root ∧ (items.map key).Nodup ∧ items.Perm s.items.toList := by
  rw [← Table.ofList?_eq_ok_iff, ofItems]
  obtain ⟨root', table⟩ := s
  cases Table.ofList? items with
  | error k =>
    constructor
    · intro h
      cases h
    · rintro ⟨-, h⟩
      cases h
  | ok table' =>
    constructor
    · intro h
      cases h
      exact ⟨rfl, rfl⟩
    · rintro ⟨rfl, h⟩
      cases h
      rfl

/-- What is read as a snapshot is one of its states. -/
theorem deserialize_eq_ok_iff : deserialize bytes checksum = .ok s ↔ s.IsState checksum bytes := by
  have hreads : (readParts : Reader (String × List τ)).Reads _ := reads.both reads Prod.mk
  unfold deserialize
  rw [bind_eq_ok]
  constructor
  · rintro ⟨⟨root, items⟩, hdecode, hitems⟩
    obtain ⟨payload, hframes, hread⟩ := Frame.decode_eq_ok_iff.1 hdecode
    obtain ⟨used, hused, _, _, first, next, rfl, hroot, hlist, hparts⟩ := (hreads _ _ _).1 hread
    rw [List.append_nil] at hused
    cases hused
    cases hparts
    simp only at hitems
    split at hitems
    · rename_i s' hs'
      cases hitems
      obtain ⟨rfl, hnodup, hperm⟩ := ofItems_eq_ok_iff.1 hs'
      exact ⟨first, next, items, hframes, hroot, hlist, hnodup, hperm⟩
    · cases hitems
  · rintro ⟨root, list, items, hframes, hroot, hlist, hnodup, hperm⟩
    have hitems : ofItems s.root items = .ok s := ofItems_eq_ok_iff.2 ⟨rfl, hnodup, hperm⟩
    have hread := hreads.read_eq ⟨_, _, root, list, rfl, hroot, hlist, rfl⟩ []
    rw [List.append_nil] at hread
    refine ⟨(s.root, items), Frame.decode_of_frames hframes hread, ?_⟩
    simp only [hitems]
    rfl

theorem IsState.fits (h : s.IsState checksum bytes) : Fits s := by
  obtain ⟨root, list, items, -, hroot, hlist, -, hperm⟩ := h
  obtain ⟨hcount, hitems⟩ := Grammar.fits _ _ hlist
  refine ⟨Grammar.fits _ _ hroot, ?_, fun a ha => hitems a (hperm.mem_iff.2 ha)⟩
  rwa [← hperm.length_eq]

omit [Item τ] [Lawful τ] [Grammar τ] in
theorem length_write_of_perm {items items' : List τ} (h : items.Perm items') :
    (write items).length = (write items').length := by
  have hcount : (write items).length =
      (writeUnsigned items.length).length + (items.flatMap write).length := List.length_append
  have hcount' : (write items').length =
      (writeUnsigned items'.length).length + (items'.flatMap write).length := List.length_append
  rw [hcount, hcount', h.length_eq, (h.flatMap_right write).length_eq]

theorem IsState.length_serialize_le (h : s.IsState checksum bytes) :
    (s.serialize checksum).length ≤ bytes.length := by
  obtain ⟨root, list, items, hframes, hroot, hlist, -, hperm⟩ := h
  have hlist := (Grammar.shortest _ _ hlist).length_le
  rw [length_write_of_perm hperm] at hlist
  have hroot := (Grammar.shortest _ _ hroot).length_le
  refine hframes.length_encode_le ?_
  have hpayload : (write s).length = (write s.root).length + (write s.items.toList).length :=
    List.length_append
  rw [hpayload, List.length_append]
  omega

theorem serialize_of_deserialize (h : deserialize bytes checksum = .ok s) :
    deserialize (s.serialize checksum) checksum = .ok s ∧
      (s.serialize checksum).length ≤ bytes.length := by
  rw [deserialize_eq_ok_iff] at h
  exact ⟨deserialize_serialize h.fits checksum, h.length_serialize_le⟩

end Snapshot

/-- What is read as a snapshot are its states and nothing else. The one that is written is among them,
and none is shorter. -/
theorem states_are_described :
    (∀ checksum bytes (s : Snapshot FileItem),
      Snapshot.deserialize bytes checksum = .ok s ↔ s.IsState checksum bytes) ∧
    (∀ checksum bytes (s : Snapshot KeyItem),
      Snapshot.deserialize bytes checksum = .ok s ↔ s.IsState checksum bytes) ∧
    (∀ checksum bytes (s : Snapshot FileItem), Snapshot.deserialize bytes checksum = .ok s →
      Snapshot.deserialize (s.serialize checksum) checksum = .ok s ∧
        (s.serialize checksum).length ≤ bytes.length) ∧
    ∀ checksum bytes (s : Snapshot KeyItem), Snapshot.deserialize bytes checksum = .ok s →
      Snapshot.deserialize (s.serialize checksum) checksum = .ok s ∧
        (s.serialize checksum).length ≤ bytes.length :=
  ⟨fun _ _ _ => Snapshot.deserialize_eq_ok_iff, fun _ _ _ => Snapshot.deserialize_eq_ok_iff,
    fun _ _ _ => Snapshot.serialize_of_deserialize, fun _ _ _ => Snapshot.serialize_of_deserialize⟩

/-- Two files, the later key first, with numbers in wider forms than they need. -/
def Snapshot.loosePayload : Bytes :=
  [251, 1, 0, 0x72] ++ [252, 2, 0, 0, 0] ++
    [1, 0x62, 251, 0, 0, 253, 5, 0, 0, 0, 0, 0, 0, 0, 7] ++
    ([1, 0x61, 1] ++ List.replicate 16 0xAB ++ [3])

/-- A state with two bytes behind its header. -/
def Snapshot.looseState : Bytes :=
  Frame.assemble ([252, 1, 0, 0, 0] ++ [251, 4, 0, 0x66, 0x69, 0x6C, 0x65] ++
    (ContentHash.ofBytes loosePayload).toBytes ++ [9, 9]) loosePayload

def Snapshot.looseKeyPayload : Bytes :=
  [0, 2, 1, 0x62, 251, 0, 0]

def Snapshot.looseKeyState : Bytes :=
  Frame.assemble ([1, 3, 0x6B, 0x65, 0x79] ++ (ContentHash.ofBytes looseKeyPayload).toBytes ++ [0])
    looseKeyPayload

theorem states_are_described_loose :
    (∃ s : Snapshot FileItem, Snapshot.deserialize Snapshot.looseState = .ok s ∧
      s.IsState ContentHash.ofBytes Snapshot.looseState ∧
      Snapshot.deserialize s.serialize = .ok s ∧
      s.serialize.length ≤ Snapshot.looseState.length) ∧
    ∃ s : Snapshot KeyItem, Snapshot.deserialize Snapshot.looseKeyState = .ok s ∧
      s.IsState ContentHash.ofBytes Snapshot.looseKeyState ∧
      Snapshot.deserialize s.serialize = .ok s ∧
      s.serialize.length ≤ Snapshot.looseKeyState.length := by
  have hfiles : Snapshot.deserialize Snapshot.looseState = .ok (⟨"r",
      ⟨[⟨"a", .content ⟨List.replicate 16 0xAB, rfl⟩ 3⟩, ⟨"b", .metadata 5 7⟩],
        by decide +kernel⟩⟩ : Snapshot FileItem) := by
    decide +kernel
  have hnames : Snapshot.deserialize Snapshot.looseKeyState =
      .ok (⟨"", ⟨[⟨""⟩, ⟨"b"⟩], by decide +kernel⟩⟩ : Snapshot KeyItem) := by
    decide +kernel
  obtain ⟨hfileStates, hnameStates, hfilesKept, hnamesKept⟩ := states_are_described
  exact ⟨⟨_, hfiles, (hfileStates _ _ _).1 hfiles, hfilesKept _ _ _ hfiles⟩,
    _, hnames, (hnameStates _ _ _).1 hnames, hnamesKept _ _ _ hnames⟩

end BuildDelta
