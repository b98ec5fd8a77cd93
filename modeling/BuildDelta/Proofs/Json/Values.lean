import BuildDelta.Packing.Unit
import BuildDelta.Proofs.Json.RoundTrip
import BuildDelta.Proofs.Snapshot.RoundTrip
import BuildDelta.Proofs.Table.Building
/-!
# The texts of snapshots and units

Hashes, fingerprints, items, references and units are read back as they were written. A snapshot is read
in two steps, its parts first (`Snapshot.textParts`) and then the table of the items, so a text can have
a list of items that makes no snapshot. Such a text is refused with the first key that occurs again, in
whatever layout it is and whatever stands behind its parts (`Snapshot.decode_of_textParts`).
-/

namespace BuildDelta

open Json

instance : Lawful ContentHash where
  isValue h := by
    refine .array fun value hvalue => ?_
    obtain ⟨b, -, rfl⟩ := List.mem_map.1 hvalue
    exact .natural b.toNat
  read_tokens h rest := by
    have hbyte : ∀ (b : UInt8) rest,
        ContentHash.readByte (.natural b.toNat :: rest) = .ok (b, rest) := by
      intro b rest
      refine (Reader.bind_ok (below_natural b.toNat_lt rest)).trans ?_
      rw [UInt8.ofNatLT_toNat]
      rfl
    have hbytes := Reader.list_array (f := fun b : UInt8 => [.natural b.toNat])
      (fun b => .natural b.toNat) hbyte h.toBytes rest
    refine (Reader.bind_ok hbytes).trans ?_
    rw [dif_pos h.length_toBytes]
    rfl

namespace FileFingerprint

theorem readParts_object {α : Type} [Format α] [Lawful α] {name : String} (hname : name ≠ "len")
    (combine : α → UInt64 → FileFingerprint) (a : α) (len : UInt64) (rest : List Token) :
    readParts name combine (object [(name, Format.tokens a), ("len", Format.tokens len)] ++ rest) =
      .ok (combine a len, rest) := by
  apply Reader.record_object
  · simpa [Reader.Field.of] using hname
  · exact .of rfl (read_tokens a) (.of rfl (read_tokens len) (.nil _))
  · rfl

instance : Lawful FileFingerprint where
  isValue p := by
    have hparts : ∀ {α : Type} [Format α] [Lawful α] (name : String) (a : α) (len : UInt64),
        IsValue (object [(name, Format.tokens a), ("len", Format.tokens len)]) :=
      fun _ _ _ => .object (by simp [isValue])
    cases p with
    | metadata modifiedNs len => exact .object (by simp [hparts])
    | content hash len => exact .object (by simp [hparts])
  read_tokens p rest := by
    cases p with
    | metadata modifiedNs len =>
      have hname : "modified_ns" ≠ "len" := by decide
      have hparts := readParts_object hname metadata modifiedNs len (.closeObject :: rest)
      simp only [Format.tokens, object, List.cons_append, List.append_assoc] at hparts ⊢
      exact Reader.bind_ok hparts
    | content hash len =>
      have hname : "hash" ≠ "len" := by decide
      have hparts := readParts_object hname content hash len (.closeObject :: rest)
      simp only [Format.tokens, object, List.cons_append, List.append_assoc] at hparts ⊢
      exact Reader.bind_ok hparts

end FileFingerprint

instance : Lawful FileItem where
  isValue i := .object (by simp [isValue])
  read_tokens i rest := by
    apply Reader.record_object
    · decide
    · exact .of rfl (read_tokens i.relativePath) (.of rfl (read_tokens i.fingerprint) (.nil _))
    · rfl

instance : Lawful KeyItem where
  isValue i := .text i.name
  read_tokens _ _ := rfl

namespace Packing

instance : Lawful FieldRef where
  isValue r := .object (by simp [isValue])
  read_tokens r rest := by
    apply Reader.record_object
    · decide
    · exact .of rfl (read_tokens r.declaringType) (.of rfl (read_tokens r.name)
        (.of rfl (read_tokens r.typeDescriptor) (.nil _)))
    · rfl

instance : Lawful MethodRef where
  isValue r := .object (by simp [isValue])
  read_tokens r rest := by
    apply Reader.record_object
    · decide
    · exact .of rfl (read_tokens r.declaringType) (.of rfl (read_tokens r.name)
        (.of rfl (read_tokens r.parameterTypes) (.of rfl (read_tokens r.returnType) (.nil _))))
    · rfl

instance : Lawful CompilationUnit where
  isValue u := .object (by simp [isValue])
  read_tokens u rest := by
    apply Reader.record_object
    · decide
    · exact .of rfl (read_tokens u.name) (.of rfl (read_tokens u.fields)
        (.of rfl (read_tokens u.methods) (.nil _)))
    · rfl

end Packing

namespace Snapshot

section Parts

variable {τ : Type} [Format τ]

/-- The tokens of a root and a list of items, whatever their keys. -/
def partTokens (root : String) (items : List τ) : List Token :=
  object [("root", Format.tokens root), ("items", Format.tokens items)]

/-- Reads a root and a list of items, in any layout, before any look at the keys. -/
def textParts : Reader (String × List τ) :=
  .record [
    .of "root" Draft.root (fun d s => { d with root := some s }) .text,
    .of "items" Draft.items (fun d is => { d with items := some is }) Format.read]
    {} Draft.build

variable [Lawful τ]

theorem isValue_partTokens (root : String) (items : List τ) : IsValue (partTokens root items) :=
  .object (by simp [isValue])

theorem textParts_partTokens (root : String) (items : List τ) (rest : List Token) :
    textParts (partTokens root items ++ rest) = .ok ((root, items), rest) := by
  apply Reader.record_object
  · simp [Reader.Field.of]
  · exact .of rfl (read_tokens root) (.of rfl (read_tokens items) (.nil _))
  · rfl

theorem textParts_compact (root : String) (items : List τ) :
    textParts (Json.scan (compact (partTokens root items))) = .ok ((root, items), []) := by
  rw [scan_compact (isValue_partTokens root items).legible]
  have hparts := textParts_partTokens root items []
  rwa [List.append_nil] at hparts

end Parts

variable {τ : Type} [Item τ] [Format τ]

theorem read_of_textParts {ts rest : List Token} {root : String} {items : List τ}
    (h : textParts ts = .ok ((root, items), rest)) : (Format.read : Reader (Snapshot τ)) ts =
      match ofItems root items with
      | .ok s => .ok (s, rest)
      | .error e => .error (.repeatedKey e.key) := by
  refine (Reader.bind_ok h).trans ?_
  cases hitems : ofItems root items <;> simp only [hitems] <;> rfl

/-- A list in which keys repeat is refused, also in a text that is damaged behind it. -/
theorem decode_of_textParts {text : String} {root : String} {items : List τ} {rest : List Token}
    (h : textParts (Json.scan text) = .ok ((root, items), rest)) (hrepeated : ¬(items.map key).Nodup) :
    ∃ k, Table.FirstRepeated items k ∧
      (decode text : Except Error (Snapshot τ)) = .error (.repeatedKey k) := by
  obtain ⟨k, hlist, hfirst⟩ := Table.exists_firstRepeated hrepeated
  refine ⟨k, hfirst, ?_⟩
  rw [decode, decodeWith, read_of_textParts h, ofItems, hlist]

variable [Lawful τ]

instance : Lawful (Snapshot τ) where
  isValue s := isValue_partTokens s.root s.items.toList
  read_tokens s rest := by
    refine (read_of_textParts (textParts_partTokens s.root s.items.toList rest)).trans ?_
    simp only [ofItems_toList]

/-- All that is asked of the texts of snapshots over one kind of items. -/
structure ReadBack (τ : Type) [Item τ] [Format τ] : Prop where
  own : ∀ s : Snapshot τ, decode (write s) = .ok s
  /-- A root and a list of items are the parts of their text, whatever the keys. -/
  parts : ∀ (root : String) (items : List τ),
    textParts (Json.scan (compact (partTokens root items))) = .ok ((root, items), [])
  /-- A text with a list in which keys repeat is refused with the one that does so first. -/
  repeated : ∀ (text root : String) (items : List τ) (rest : List Token),
    textParts (Json.scan text) = .ok ((root, items), rest) → ¬(items.map key).Nodup →
      ∃ k, Table.FirstRepeated items k ∧
        (decode text : Except Error (Snapshot τ)) = .error (.repeatedKey k)

theorem readBack : ReadBack τ where
  own := decode_write
  parts := textParts_compact
  repeated _ _ _ _ := decode_of_textParts

end Snapshot

/-- The text that is written for a snapshot or a unit is read back as what it was written for, and a text
with a list of items in which a key repeats is not read as a snapshot. -/
theorem json_texts_are_read_back :
    Snapshot.ReadBack FileItem ∧ Snapshot.ReadBack KeyItem ∧
      ∀ u : Packing.CompilationUnit, decode (write u) = .ok u :=
  ⟨Snapshot.readBack, Snapshot.readBack, decode_write⟩

/-- In this text the items stand in front of the root, the last one is the first one in another spelling,
and there are a field of no meaning and blanks. -/
def Snapshot.respelledText : String :=
  "\x7b \"items\" : [\"b\",\n\"a\",\"\\u0062\"], \"x\":[null, -1.5e3], \"root\":\"r\"\x7d ]"

theorem json_texts_are_read_back_respelled :
    let items : List KeyItem := [⟨"b"⟩, ⟨"a"⟩, ⟨"b"⟩]
    Snapshot.textParts (Json.scan Snapshot.respelledText) = .ok (("r", items), [.closeArray]) ∧
      ¬(items.map key).Nodup ∧
      (∃ k, Table.FirstRepeated items k ∧
        (decode Snapshot.respelledText : Except Error (Snapshot KeyItem)) = .error (.repeatedKey k)) ∧
      (decode Snapshot.respelledText : Except Error (Snapshot KeyItem)) = .error (.repeatedKey "b") := by
  intro items
  obtain ⟨-, hnames, -⟩ := json_texts_are_read_back
  have hparts : Snapshot.textParts (Json.scan Snapshot.respelledText) =
      .ok (("r", items), [.closeArray]) := by
    decide +kernel
  have hrepeated : ¬(items.map key).Nodup := by decide
  exact ⟨hparts, hrepeated, hnames.repeated _ _ _ _ hparts hrepeated, by decide +kernel⟩

end BuildDelta
